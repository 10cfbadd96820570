import Kthxvm.Lib.ByteMemory
import Kthxvm.Lib.Triple
import Kthxvm.Lib.WriteLog

/-! Guest memory as the devices see it: a host mapping of `size` bytes that is
reached through `ptr + addr` with a 64-bit `addr`. An access that the language
leaves undefined, or a loop that runs out of fuel, ends the computation with
the reason. -/
namespace Kthxvm

open Lib.ByteMemory Lib.Triple Lib.WriteLog

inductive Fault where
  /-- bytes of the host process outside `[0, memory_size)` of the mapping -/
  | outside (addr : UInt64) (len : Nat)
  /-- `ring[i]` of the available or used ring with `i` past the declared array -/
  | slot (i : Nat)
  /-- `desc()->ring[i]` with `i` past the declared array -/
  | descriptor (i : Nat)
  /-- `queues[i]` past the array of the device -/
  | queue (i : Nat)
  | divideByZero
  /-- a host-side buffer is read or written past its end -/
  | hostBuffer
  /-- a null pointer of the host is followed -/
  | null
  /-- the fuel of a loop did not suffice -/
  | unfinished
deriving DecidableEq

theorem bind_eq_ok {α β : Type} {x : Except Fault α} {f : α → Except Fault β} {b : β} :
    x >>= f = .ok b ↔ ∃ a, x = .ok a ∧ f a = .ok b := by
  cases x with
  | error e =>
    constructor
    · intro h
      contradiction
    · rintro ⟨a, h, -⟩
      contradiction
  | ok a =>
    constructor
    · intro h
      exact ⟨a, rfl, h⟩
    · rintro ⟨a', h, hf⟩
      cases h
      exact hf

theorem map_eq_ok {α β : Type} {x : Except Fault α} {f : α → β} {b : β} :
    x.map f = .ok b ↔ ∃ a, x = .ok a ∧ f a = b := by
  cases x with
  | error e =>
    constructor
    · intro h
      contradiction
    · rintro ⟨a, h, -⟩
      contradiction
  | ok a =>
    constructor
    · intro h
      exact ⟨a, rfl, Except.ok.inj h⟩
    · rintro ⟨a', h, rfl⟩
      cases h
      rfl

theorem ok_bind {α β : Type} (a : α) (f : α → Except Fault β) : Except.ok a >>= f = f a := rfl

structure Guest where
  bytes : Memory
  size : Nat

namespace Guest

/-- `n` bytes at `addr` lie in the mapping; no byte is touched when `n = 0`. -/
def Holds (g : Guest) (addr : UInt64) (n : Nat) : Prop :=
  n = 0 ∨ addr.toNat + n ≤ g.size

instance (g : Guest) (addr : UInt64) (n : Nat) : Decidable (g.Holds addr n) :=
  inferInstanceAs (Decidable (_ ∨ _))

def check (g : Guest) (addr : UInt64) (n : Nat) : Except Fault Unit :=
  if g.Holds addr n then .ok () else .error (.outside addr n)

def read8 (g : Guest) (addr : UInt64) : Except Fault UInt8 := do
  g.check addr 1
  return g.bytes addr

def read16 (g : Guest) (addr : UInt64) : Except Fault UInt16 := do
  g.check addr 2
  return load16 g.bytes addr

def read32 (g : Guest) (addr : UInt64) : Except Fault UInt32 := do
  g.check addr 4
  return load32 g.bytes addr

def read64 (g : Guest) (addr : UInt64) : Except Fault UInt64 := do
  g.check addr 8
  return load64 g.bytes addr

def read (g : Guest) (addr : UInt64) (n : Nat) : Except Fault (List UInt8) := do
  g.check addr n
  return load g.bytes addr n

def write (g : Guest) (addr : UInt64) (data : List UInt8) : Except Fault Guest := do
  g.check addr data.length
  return { g with bytes := store g.bytes addr data }

def write16 (g : Guest) (addr : UInt64) (v : UInt16) : Except Fault Guest := do
  g.check addr 2
  return { g with bytes := store16 g.bytes addr v }

def write32 (g : Guest) (addr : UInt64) (v : UInt32) : Except Fault Guest := do
  g.check addr 4
  return { g with bytes := store32 g.bytes addr v }

def writeAll : Guest → Log → Except Fault Guest
  | g, [] => .ok g
  | g, w :: log => do
    let g ← g.write w.1 w.2
    g.writeAll log

section Ok

variable {g : Guest} {addr : UInt64}

@[simp] theorem check_ok {n : Nat} (h : g.Holds addr n) : g.check addr n = .ok () :=
  if_pos h

theorem check_error {n : Nat} (h : ¬ g.Holds addr n) :
    g.check addr n = .error (.outside addr n) :=
  if_neg h

theorem read8_ok (h : g.Holds addr 1) : g.read8 addr = .ok (g.bytes addr) := by
  simp [read8, h]

theorem read16_ok (h : g.Holds addr 2) : g.read16 addr = .ok (load16 g.bytes addr) := by
  simp [read16, h]

theorem read32_ok (h : g.Holds addr 4) : g.read32 addr = .ok (load32 g.bytes addr) := by
  simp [read32, h]

theorem read64_ok (h : g.Holds addr 8) : g.read64 addr = .ok (load64 g.bytes addr) := by
  simp [read64, h]

theorem read_ok {n : Nat} (h : g.Holds addr n) :
    g.read addr n = .ok (load g.bytes addr n) := by
  simp [read, h]

theorem write_ok {data : List UInt8} (h : g.Holds addr data.length) :
    g.write addr data = .ok { g with bytes := store g.bytes addr data } := by
  simp [write, h]

theorem write16_ok {v : UInt16} (h : g.Holds addr 2) :
    g.write16 addr v = .ok { g with bytes := store16 g.bytes addr v } := by
  simp [write16, h]

theorem write32_ok {v : UInt32} (h : g.Holds addr 4) :
    g.write32 addr v = .ok { g with bytes := store32 g.bytes addr v } := by
  simp [write32, h]

theorem read_eq_ok {n : Nat} {bytes : List UInt8} (h : g.read addr n = .ok bytes) :
    bytes = load g.bytes addr n := by
  obtain ⟨_, -, h⟩ := bind_eq_ok.mp h
  exact (Except.ok.inj h).symm

theorem write_eq_ok {data : List UInt8} {g' : Guest} (h : g.write addr data = .ok g') :
    g' = { g with bytes := store g.bytes addr data } := by
  obtain ⟨_, -, h⟩ := bind_eq_ok.mp h
  exact (Except.ok.inj h).symm

theorem write_held {data : List UInt8} {g' : Guest} (h : g.write addr data = .ok g') :
    g.Holds addr data.length := by
  by_contra hnot
  unfold write at h
  rw [check_error hnot] at h
  contradiction

theorem writeAll_ok {log : Log} (h : ∀ w ∈ log, g.Holds w.1 w.2.length) :
    g.writeAll log = .ok { g with bytes := storeAll g.bytes log } := by
  induction log generalizing g with
  | nil => rfl
  | cons w log ih =>
    have hw := write_ok (h w List.mem_cons_self)
    rw [writeAll, hw]
    exact ih fun w' hw' => h w' (List.mem_cons_of_mem _ hw')

end Ok

section Meets

variable {allowed : Fault → Prop} (hout : ∀ addr n, allowed (.outside addr n))
  {g : Guest} {addr : UInt64}

include hout

theorem check_meets (n : Nat) : Meets allowed (g.check addr n) fun _ => True := by
  unfold check
  split
  · trivial
  · exact hout _ _

theorem read16_meets : Meets allowed (g.read16 addr) fun _ => True :=
  (check_meets hout 2).bind fun _ _ => trivial

theorem read32_meets : Meets allowed (g.read32 addr) fun _ => True :=
  (check_meets hout 4).bind fun _ _ => trivial

theorem read64_meets : Meets allowed (g.read64 addr) fun _ => True :=
  (check_meets hout 8).bind fun _ _ => trivial

theorem read_meets (n : Nat) : Meets allowed (g.read addr n) fun _ => True :=
  (check_meets hout n).bind fun _ _ => trivial

theorem write_meets (data : List UInt8) :
    Meets allowed (g.write addr data) fun g' => g'.bytes = store g.bytes addr data :=
  (check_meets hout data.length).bind fun _ _ => Meets.ok rfl

theorem write16_meets (v : UInt16) : Meets allowed (g.write16 addr v) fun _ => True :=
  (check_meets hout 2).bind fun _ _ => trivial

theorem write32_meets (v : UInt32) : Meets allowed (g.write32 addr v) fun _ => True :=
  (check_meets hout 4).bind fun _ _ => trivial

end Meets

theorem Holds.field {g : Guest} {a k : UInt64} {n m : Nat} (h : g.Holds a m)
    (hk : k.toNat + n ≤ m) : g.Holds (a + k) n := by
  rcases Nat.eq_zero_or_pos n with hn | hn
  · exact Or.inl hn
  · right
    have hm : a.toNat + m ≤ g.size := h.resolve_left (by omega)
    have hle : (a + k).toNat ≤ a.toNat + k.toNat := by
      rw [UInt64.toNat_add]
      exact Nat.mod_le _ _
    omega

theorem Holds.mono {g : Guest} {a : UInt64} {n m : Nat} (h : g.Holds a m)
    (hn : n ≤ m) : g.Holds a n := by
  rcases h with h | h
  · left; omega
  · right; omega

end Guest

end Kthxvm
