import Salus.Page

/-!
# `PhysPages`: owner stacks and active guests

`PhysPages` lives in the `riscv_page_tables` crate, whose source is not part of this
development; it is modelled from the spec (§3 "Page owner stack", "Active guest table", §4.2).
Every tracked page has a stack of `PageOwnerId`s, the donation chain with the hypervisor at the
bottom and the current owner on top; `set_page_owner` pushes, `pop_owner` pops and returns the
owner it popped, and the bottom entry cannot be popped. The active-guest table hands out fresh
ids. All handles (`phys_pages()`, `clone()`) refer to one state, so the model keeps a single
`PhysPages` value for the whole system.
-/

namespace Salus

/-- Modelled from the spec: `PageOwnerId`, an integer tag naming a principal. -/
structure PageOwnerId where
  raw : Nat
  deriving DecidableEq, Repr

/-- Modelled from the spec: `PageOwnerId::hypervisor()`. -/
def PageOwnerId.hypervisor : PageOwnerId := ⟨0⟩

/-- Modelled from the spec: `PageOwnerId::host()`. -/
def PageOwnerId.host : PageOwnerId := ⟨1⟩

/-- Modelled from the spec: `PageTrackingError`. -/
inductive PageTrackingError
  | idExhausted
  | tooManyGuests
  | invalidAddr
  | ownerStackFull
  | emptyStack
  deriving DecidableEq, Repr

/-- Modelled from the spec: the shared state behind every `PhysPages` handle. `owners a` is the
owner stack of the page at address `a`, top first (`[]` for an untracked address);
`maxGuests` and `maxOwners` bound the active-guest table and each stack. -/
structure PhysPages where
  owners : Nat → List PageOwnerId
  activeGuests : List PageOwnerId
  nextId : Nat
  maxGuests : Nat
  maxOwners : Nat

namespace PhysPages

/-- The owner on top of the stack of the page at `a`. -/
def owner (pp : PhysPages) (a : Nat) : Option PageOwnerId := (pp.owners a).head?

/-- The state with the owner stack of the page at `a` replaced. -/
def setOwners (pp : PhysPages) (a : Nat) (st : List PageOwnerId) : PhysPages :=
  { pp with owners := fun b => if b = a then st else pp.owners b }

/-- Modelled from the spec: `add_active_guest`, a fresh `u64` id entered in the active set. -/
def addActiveGuest (pp : PhysPages) : Except PageTrackingError (PageOwnerId × PhysPages) :=
  if pp.maxGuests ≤ pp.activeGuests.length then .error .tooManyGuests
  else if 2 ^ 64 ≤ pp.nextId then .error .idExhausted
  else .ok (⟨pp.nextId⟩,
    { pp with activeGuests := pp.activeGuests ++ [⟨pp.nextId⟩], nextId := pp.nextId + 1 })

/-- Modelled from the spec: `rm_active_guest`. -/
def rmActiveGuest (pp : PhysPages) (id : PageOwnerId) : PhysPages :=
  { pp with activeGuests := pp.activeGuests.erase id }

/-- Modelled from the spec: `set_page_owner`, a push onto a tracked page's bounded stack. -/
def setPageOwner (pp : PhysPages) (addr : PageAddr PageSize4k) (id : PageOwnerId) :
    Except PageTrackingError PhysPages :=
  let st := pp.owners addr.bits
  if st = [] then .error .invalidAddr
  else if pp.maxOwners ≤ st.length then .error .ownerStackFull
  else .ok (pp.setOwners addr.bits (id :: st))

/-- Modelled from the spec: `pop_owner`, which pops the top of the stack and returns it; the
hypervisor at the bottom cannot be popped. -/
def popOwner (pp : PhysPages) (addr : PageAddr PageSize4k) :
    Except PageTrackingError (PageOwnerId × PhysPages) :=
  match pp.owners addr.bits with
  | [] => .error .invalidAddr
  | [_] => .error .emptyStack
  | top :: below => .ok (top, pp.setOwners addr.bits below)

@[simp] theorem setOwners_owners (pp : PhysPages) (a b : Nat) (st : List PageOwnerId) :
    (pp.setOwners a st).owners b = if b = a then st else pp.owners b := rfl

@[simp] theorem setOwners_activeGuests (pp : PhysPages) (a : Nat) (st : List PageOwnerId) :
    (pp.setOwners a st).activeGuests = pp.activeGuests := rfl

@[simp] theorem setOwners_nextId (pp : PhysPages) (a : Nat) (st : List PageOwnerId) :
    (pp.setOwners a st).nextId = pp.nextId := rfl

theorem setPageOwner_eq_ok {pp pp' : PhysPages} {addr : PageAddr PageSize4k} {id : PageOwnerId}
    (h : pp.setPageOwner addr id = .ok pp') :
    pp.owners addr.bits ≠ [] ∧ pp' = pp.setOwners addr.bits (id :: pp.owners addr.bits) := by
  simp only [setPageOwner] at h
  split at h
  · cases h
  · split at h
    · cases h
    · cases h; exact ⟨‹_›, rfl⟩

theorem setPageOwner_nextId {pp pp' : PhysPages} {addr : PageAddr PageSize4k} {id : PageOwnerId}
    (h : pp.setPageOwner addr id = .ok pp') : pp'.nextId = pp.nextId := by
  rw [(setPageOwner_eq_ok h).2, setOwners_nextId]

theorem addActiveGuest_eq_ok {pp pp' : PhysPages} {id : PageOwnerId}
    (h : pp.addActiveGuest = .ok (id, pp')) :
    id = ⟨pp.nextId⟩ ∧ pp'.owners = pp.owners ∧ pp'.nextId = pp.nextId + 1 := by
  unfold addActiveGuest at h
  split at h
  · cases h
  · split at h <;> cases h
    exact ⟨rfl, rfl, rfl⟩

theorem addActiveGuest_activeGuests {pp pp' : PhysPages} {id : PageOwnerId}
    (h : pp.addActiveGuest = .ok (id, pp')) : pp'.activeGuests = pp.activeGuests ++ [id] := by
  unfold addActiveGuest at h
  split at h
  · cases h
  · split at h <;> cases h
    rfl

theorem popOwner_eq_ok {pp pp' : PhysPages} {addr : PageAddr PageSize4k} {top : PageOwnerId}
    (h : pp.popOwner addr = .ok (top, pp')) :
    ∃ below, below ≠ [] ∧ pp.owners addr.bits = top :: below ∧
      pp' = pp.setOwners addr.bits below := by
  unfold popOwner at h
  rcases hst : pp.owners addr.bits with _ | ⟨t, _ | ⟨b, below⟩⟩ <;> rw [hst] at h <;> simp at h
  obtain ⟨rfl, rfl⟩ := h
  exact ⟨b :: below, by simp, rfl, rfl⟩

theorem popOwner_nextId {pp pp' : PhysPages} {addr : PageAddr PageSize4k} {top : PageOwnerId}
    (h : pp.popOwner addr = .ok (top, pp')) : pp'.nextId = pp.nextId := by
  obtain ⟨_, -, -, rfl⟩ := popOwner_eq_ok h
  rfl

theorem popOwner_eq_error {pp : PhysPages} {addr : PageAddr PageSize4k} {e : PageTrackingError}
    (h : pp.popOwner addr = .error e) : (pp.owners addr.bits).length ≤ 1 := by
  unfold popOwner at h
  split at h <;> simp_all

end PhysPages

end Salus
