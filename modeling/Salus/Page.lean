import Mathlib.Data.List.Basic
import Mathlib.Algebra.Group.Nat.Basic

/-!
# Pages and `u64` arithmetic

The page types that `sequential_pages.rs` and `vm_pages.rs` import from the `riscv_pages`
crate, whose source is not part of this development. They are modelled from the spec
(§3 "Data model"): a `PageAddr<S>` is a 64-bit physical address aligned to `S::SIZE_BYTES`,
and a `Page<S>` is the handle that owns the frame at such an address. Machine words are `Nat`s
below `2 ^ 64`; the two `u64` additions the source performs are `checkedAdd` and
`wrappingAdd` (the `+=` of a release build).
-/

namespace Salus

/-- `u64::MAX`. -/
def u64Max : Nat := 2 ^ 64 - 1

/-- `u64::checked_add`. -/
def checkedAdd (a b : Nat) : Option Nat :=
  if a + b < 2 ^ 64 then some (a + b) else none

/-- `u64` addition as a release build performs `+=`: modulo `2 ^ 64`. -/
def wrappingAdd (a b : Nat) : Nat := (a + b) % 2 ^ 64

@[simp] theorem checkedAdd_eq_some {a b c : Nat} :
    checkedAdd a b = some c ↔ a + b < 2 ^ 64 ∧ a + b = c := by
  unfold checkedAdd; split <;> simp_all

@[simp] theorem checkedAdd_eq_none {a b : Nat} : checkedAdd a b = none ↔ 2 ^ 64 ≤ a + b := by
  unfold checkedAdd; split <;> simp_all

theorem wrappingAdd_lt (a b : Nat) : wrappingAdd a b < 2 ^ 64 :=
  Nat.mod_lt _ (Nat.two_pow_pos 64)

theorem wrappingAdd_of_lt {a b : Nat} (h : a + b < 2 ^ 64) : wrappingAdd a b = a + b :=
  Nat.mod_eq_of_lt h

/-- Modelled from the spec: the `PageSize` trait. `SIZE_BYTES` is positive and divides
`2 ^ 64`; every page size of the crate (4 KiB up to 512 GiB) is a power of two. -/
structure PageSize where
  sizeBytes : Nat
  sizeBytes_pos : 0 < sizeBytes
  sizeBytes_dvd : sizeBytes ∣ 2 ^ 64

/-- Modelled from the spec: `PageSize4k`, the only page size `vm_pages.rs` uses. -/
def PageSize4k : PageSize := ⟨4096, by decide, ⟨2 ^ 52, by decide⟩⟩

@[simp] theorem PageSize4k_sizeBytes : PageSize4k.sizeBytes = 4096 := rfl

/-- Modelled from the spec: `PageAddr<S>`, a `PhysAddr` (a `u64`) aligned to
`S::SIZE_BYTES`. -/
structure PageAddr (S : PageSize) where
  bits : Nat
  bits_lt : bits < 2 ^ 64
  aligned : bits % S.sizeBytes = 0
  deriving DecidableEq

/-- Modelled from the spec: `PageAddr::new(PhysAddr::new(addr))`, which is `None` unless
`addr` is aligned to the page size. -/
def PageAddr.new (S : PageSize) (addr : Nat) (h : addr < 2 ^ 64) : Option (PageAddr S) :=
  if ha : addr % S.sizeBytes = 0 then some ⟨addr, h, ha⟩ else none

theorem PageAddr.new_of_aligned {S : PageSize} {addr : Nat} (h : addr < 2 ^ 64)
    (ha : addr % S.sizeBytes = 0) : PageAddr.new S addr h = some ⟨addr, h, ha⟩ := by
  simp [PageAddr.new, ha]

/-- Modelled from the spec: `Page<S>`, the linear handle owning the frame at `addr`. -/
structure Page (S : PageSize) where
  addr : PageAddr S
  deriving DecidableEq

/-- `page.addr().bits()`. -/
def Page.bits {S : PageSize} (p : Page S) : Nat := p.addr.bits

theorem Page.ext_bits {S : PageSize} {p q : Page S} (h : p.bits = q.bits) : p = q := by
  obtain ⟨⟨a, _, _⟩⟩ := p
  obtain ⟨⟨b, _, _⟩⟩ := q
  cases h
  rfl

theorem Page.bits_lt {S : PageSize} (p : Page S) : p.bits < 2 ^ 64 := p.addr.bits_lt

theorem Page.aligned {S : PageSize} (p : Page S) : p.bits % S.sizeBytes = 0 := p.addr.aligned

/-- `Page4k`. -/
abbrev Page4k := Page PageSize4k

/-- Modelled from the spec: physical memory, the byte at each offset of the frame at each
address. -/
abbrev Memory := Nat → Nat → UInt8

/-- Modelled from the spec: `CleanPage::from`, the transition that zeroes the page. -/
def Memory.clean {S : PageSize} (mem : Memory) (p : Page S) : Memory :=
  fun a o => if a = p.bits then 0 else mem a o

/-- Every byte of page `p` is zero. -/
def Memory.Zeroed {S : PageSize} (mem : Memory) (p : Page S) : Prop :=
  ∀ o < S.sizeBytes, mem p.bits o = 0

end Salus
