import Salus.Creation
import Salus.Donation

/-!
# What the donating calls hand over

`VmPages::add_pte_pages_builder` (`vm_pages.rs:86-107`) pulls the window's valid leaves with
the invalidate iterator. Each page is zeroed by `CleanPage::from`, gets the builder's id pushed
on its owner stack, and is pushed on the builder's PTE pool by `add_pte_page`
(`vm_pages.rs:322-328`). The pool thus ends with the window's pages on top, the last one first.

`VmPages::add_4k_pages_builder` (`vm_pages.rs:111-136`) walks the window with the invalidate
iterator, zipped with `to_addr.iter_from()`. For each valid leaf it pushes the builder's id on
the page's owner stack and maps the page in the builder with `add_data_page` or `add_zero_page`
(`vm_pages.rs:332-345`). When the guest window fits below `2 ^ 64`, no pulled page is dropped
for want of an address.

In that case a call that returns `Ok` hands over exactly the pages of the window's valid leaves.
Their leaves are invalidated in the VM and every other leaf is kept. The `j`-th of them is mapped
valid at `to_addr + j·4 KiB` in the builder, and the builder's id is pushed once per leaf on its
owner stack. No byte of memory is written.
-/

namespace Salus

variable {D : Type} [Inhabited D] [DataMeasure D]

/-! ## `add_pte_pages_builder` -/

/-- `mem'` is `mem` with each page of `pulled` zeroed. -/
def Memory.Cleaned (mem : Memory) (pulled : List Page4k) (mem' : Memory) : Prop :=
  ∀ a o, mem' a o = if 0 < pulled.countP (fun p => p.bits == a) then 0 else mem a o

namespace Memory

theorem Cleaned.refl (mem : Memory) : mem.Cleaned [] mem := fun _ _ => rfl

theorem Cleaned.trans {mem mem₁ mem₂ : Memory} {l₁ l₂ : List Page4k} (h₁ : mem.Cleaned l₁ mem₁)
    (h₂ : mem₁.Cleaned l₂ mem₂) : mem.Cleaned (l₁ ++ l₂) mem₂ := fun a o => by
  rw [h₂, h₁, List.countP_append]
  split_ifs <;> first | rfl | omega

theorem cleaned_clean (mem : Memory) (p : Page4k) : mem.Cleaned [p] (mem.clean p) := fun a o => by
  by_cases ha : a = p.bits
  · simp [clean, ha]
  · simp [clean, ha, Ne.symm ha]

end Memory

omit [Inhabited D] [DataMeasure D] in
theorem GuestRootBuilder.addPtePage_eq_ok {b b' : GuestRootBuilder D} {page : Page4k}
    (h : b.addPtePage page = (.ok (), b')) : b' = { b with ptePages := b.ptePages.push page } := by
  unfold addPtePage at h
  split at h <;> cases h
  rfl

omit [Inhabited D] [DataMeasure D] in
/-- When the loop of `add_pte_pages_builder` returns `Ok`, it has pulled every valid leaf of its
slots; their pages are pushed on the builder's pool, the last one on top, zeroed, and given the
builder's id on top of their owner stacks. -/
theorem addPtePagesLoop_ok : ∀ (slots : List Nat) {t t' : PageTable}
    {dest dest' : GuestRootBuilder D} {m m' : Machine}, slots.Nodup →
    VmPages.addPtePagesLoop slots t dest m = (.ok (), t', dest', m') →
    PageTable.Pulls t slots (t.validIn slots) t' [] ∧
      dest' = { dest with ptePages :=
        { dest.ptePages with items := (t.validIn slots).reverse ++ dest.ptePages.items } } ∧
      m.phys.Pushed dest.pageOwnerId (t.validIn slots) m'.phys ∧
      m.mem.Cleaned (t.validIn slots) m'.mem
  | [], _, _, _, _, _, _, _, h => by
    cases h
    exact ⟨.refl _ _, rfl, .refl _ _, .refl _⟩
  | g :: rest, t, t', dest, dest', m, m', hnd, h => by
    obtain ⟨hg, hrest⟩ := List.nodup_cons.mp hnd
    simp only [VmPages.addPtePagesLoop] at h
    split at h
    · rename_i t₁ heq
      have hp := PageTable.invalidateSlot_pulls hg heq
      have hv : t.validIn (g :: rest) = t₁.validIn rest := hp.valid
      rw [hv]
      obtain ⟨hp', hd, hq, hc⟩ := addPtePagesLoop_ok rest hrest h
      exact ⟨hp.trans hp', hd, hq, hc⟩
    · rename_i p t₁ heq
      have hp := PageTable.invalidateSlot_pulls hg heq
      have hv : t.validIn (g :: rest) = p :: t₁.validIn rest := hp.valid
      rw [hv]
      split at h
      · cases h
      rename_i phys hset
      split at h
      · cases h
      rename_i dest₁ hadd
      obtain rfl := GuestRootBuilder.addPtePage_eq_ok hadd
      obtain ⟨hp', rfl, hq, hc⟩ := addPtePagesLoop_ok rest hrest h
      exact ⟨hp.trans hp', by simp [PageVec.push], (PhysPages.pushed_setPageOwner hset).trans hq,
        (m.mem.cleaned_clean p).trans hc⟩

omit [Inhabited D] [DataMeasure D] in
/-- When `add_pte_pages_builder` returns `Ok`, the builder's PTE pool has the pages of the
window's valid leaves pushed on it in slot order, the last one on top, and nothing else of the
builder has changed; those leaves are invalidated in the VM's table and every other leaf is
kept; and each of those pages is zeroed and has the builder's id pushed on its owner stack, once
per leaf, every other page being left alone. -/
theorem addPtePagesBuilder_fills_pool {v v' : VmPages D} {fromAddr : PageAddr PageSize4k}
    {count : Nat} {dest dest' : GuestRootBuilder D} {m m' : Machine}
    (h : v.addPtePagesBuilder fromAddr count dest m = (.ok (), v', dest', m')) :
    dest' = { dest with ptePages := { dest.ptePages with items :=
      (v.root.validIn (PageTable.slots fromAddr.bits count)).reverse ++ dest.ptePages.items } } ∧
      v'.measurement = v.measurement ∧
      (∀ g, v'.root.entry g = if g ∈ PageTable.slots fromAddr.bits count then
        (v.root.entry g).map (fun e => { e with valid := false }) else v.root.entry g) ∧
      (∀ a, m'.phys.owners a = List.replicate
        (v.root.validCount (PageTable.slots fromAddr.bits count) a) dest.pageOwnerId ++
          m.phys.owners a) ∧
      ∀ a o, m'.mem a o =
        if 0 < v.root.validCount (PageTable.slots fromAddr.bits count) a then 0 else m.mem a o := by
  unfold VmPages.addPtePagesBuilder at h
  split at h
  · cases h
  rename_i slots hr
  obtain rfl := PageTable.eq_slots_of_invalidateRange hr
  rcases hl : VmPages.addPtePagesLoop (PageTable.slots fromAddr.bits count) v.root dest m with
    ⟨r, t, d, m₁⟩
  rw [hl] at h
  cases h
  obtain ⟨hp, hd, hq, hc⟩ := addPtePagesLoop_ok _ (PageTable.slots_nodup _ _) hl
  exact ⟨hd, rfl, (hp.all rfl).2, hq.1, hc⟩

/-- After the first four calls of the small machine's run, the host's `add_pte_pages_builder`
over the window at `0x8001_8000` fills the guest's pool with its three pages. -/
theorem addPtePagesBuilder_fills_pool_small :
    ∃ s : System PageLog, Reachable smallHypMem AnyCall s ∧ ∃ v b v' b' m',
      s.principals = [.vm v, .guestBuilder b] ∧
      v.addPtePagesBuilder ⟨0x80018000, by decide, by decide⟩ 3 b s.machine =
        (.ok (), v', b', m') ∧
      b'.ptePages.items.length = 3 ∧
      b' = { b with ptePages := { b.ptePages with items :=
        (v.root.validIn (PageTable.slots 0x80018000 3)).reverse ++ b.ptePages.items } } ∧
      v'.measurement = v.measurement ∧
      (∀ g, v'.root.entry g = if g ∈ PageTable.slots 0x80018000 3 then
        (v.root.entry g).map (fun e => { e with valid := false }) else v.root.entry g) ∧
      (∀ a, m'.phys.owners a = List.replicate
        (v.root.validCount (PageTable.slots 0x80018000 3) a) b.pageOwnerId ++
          s.machine.phys.owners a) ∧
      ∀ a o, m'.mem a o =
        if 0 < v.root.validCount (PageTable.slots 0x80018000 3) a then 0 else s.machine.mem a o := by
  obtain ⟨s, hs, hp⟩ := exists_reachable_of_run smallHypMem (smallCalls.take 4)
    (fun s : System PageLog =>
      match s.principals with
      | [.vm v, .guestBuilder b] =>
        match v.addPtePagesBuilder ⟨0x80018000, by decide, by decide⟩ 3 b s.machine with
        | (.ok (), _, b', _) => b'.ptePages.items.length == 3
        | _ => false
      | _ => false) (by decide)
  refine ⟨s, hs, ?_⟩
  revert hp
  split
  · rename_i v b hps
    split
    · rename_i v' b' m' hadd
      intro hlen
      exact ⟨v, b, v', b', m', hps, hadd, by simpa using hlen, addPtePagesBuilder_fills_pool hadd⟩
    · nofun
  · nofun

omit [Inhabited D] [DataMeasure D] in
theorem GuestRootBuilder.addPtePage_eq_error {b b' : GuestRootBuilder D} {page : Page4k}
    {e : Error} (h : b.addPtePage page = (.error e, b')) :
    e = .insufficientPtePageStorage ∧ b' = b := by
  unfold addPtePage at h
  split at h <;> cases h
  exact ⟨rfl, rfl⟩

omit [Inhabited D] [DataMeasure D] in
/-- When the loop of `add_pte_pages_builder` fails, it has handed over the pages `done` of the
first valid leaves and pulled one more, `p`: `p` is invalidated and zeroed but not in the pool.
If `set_page_owner` failed, `p` keeps its owner; if the pool was full, `p` carries the
builder's id. -/
theorem addPtePagesLoop_error : ∀ (slots : List Nat) {t t' : PageTable}
    {dest dest' : GuestRootBuilder D} {m m' : Machine} {e : Error}, slots.Nodup →
    VmPages.addPtePagesLoop slots t dest m = (.error e, t', dest', m') →
    ∃ done p rest, PageTable.Pulls t slots (done ++ [p]) t' rest ∧
      dest' = { dest with ptePages :=
        { dest.ptePages with items := done.reverse ++ dest.ptePages.items } } ∧
      m.mem.Cleaned (done ++ [p]) m'.mem ∧
      ((∃ te, e = .settingOwner te) ∧ m.phys.Pushed dest.pageOwnerId done m'.phys ∨
        e = .insufficientPtePageStorage ∧ m.phys.Pushed dest.pageOwnerId (done ++ [p]) m'.phys)
  | [], _, _, _, _, _, _, _, _, h => by cases h
  | g :: rest, t, t', dest, dest', m, m', e, hnd, h => by
    obtain ⟨hg, hrest⟩ := List.nodup_cons.mp hnd
    simp only [VmPages.addPtePagesLoop] at h
    split at h
    · rename_i t₁ heq
      obtain ⟨done, p, rest', hp, hd, hc, hq⟩ := addPtePagesLoop_error rest hrest h
      exact ⟨done, p, rest', (PageTable.invalidateSlot_pulls hg heq).trans hp, hd, hc, hq⟩
    · rename_i p t₁ heq
      have hp := PageTable.invalidateSlot_pulls hg heq
      split at h
      · -- `set_page_owner` failed on `p`.
        rename_i te hset
        cases h
        exact ⟨[], p, rest, hp, rfl, m.mem.cleaned_clean p, .inl ⟨⟨te, rfl⟩, .refl _ _⟩⟩
      rename_i phys hset
      split at h
      · -- The pool was full.
        rename_i e₁ dest₁ hadd
        cases h
        obtain ⟨rfl, rfl⟩ := GuestRootBuilder.addPtePage_eq_error hadd
        exact ⟨[], p, rest, hp, rfl, m.mem.cleaned_clean p,
          .inr ⟨rfl, PhysPages.pushed_setPageOwner hset⟩⟩
      rename_i dest₁ hadd
      obtain rfl := GuestRootBuilder.addPtePage_eq_ok hadd
      obtain ⟨done, p', rest', hp', hd, hc, hq⟩ := addPtePagesLoop_error rest hrest h
      have hpush := PhysPages.pushed_setPageOwner hset
      refine ⟨p :: done, p', rest', hp.trans hp', by rw [hd]; simp [PageVec.push],
        (m.mem.cleaned_clean p).trans hc, ?_⟩
      rcases hq with ⟨he, hq⟩ | ⟨he, hq⟩
      · exact .inl ⟨he, hpush.trans hq⟩
      · exact .inr ⟨he, hpush.trans hq⟩

omit [Inhabited D] [DataMeasure D] in
/-- When `add_pte_pages_builder` returns `Err`, either the range was invalid and nothing has
changed, or the call stopped at the `k`-th valid leaf of the window. The first `k - 1` pages
are handed over as on success: invalidated, zeroed, pushed on the pool, and given the builder's
id. The `k`-th page is invalidated and zeroed but is not in the pool: if `set_page_owner`
failed it keeps its owner stack, and if the pool was full it carries the builder's id. The
VM's measurement and the rest of the window are untouched. -/
theorem addPtePagesBuilder_error_extent {v v' : VmPages D} {fromAddr : PageAddr PageSize4k}
    {count : Nat} {dest dest' : GuestRootBuilder D} {m m' : Machine} {e : Error}
    (h : v.addPtePagesBuilder fromAddr count dest m = (.error e, v', dest', m')) :
    e = .invalidRange ∧ v' = v ∧ dest' = dest ∧ m' = m ∨
    ∃ done p rest, PageTable.Pulls v.root (PageTable.slots fromAddr.bits count) (done ++ [p])
        v'.root rest ∧
      v'.measurement = v.measurement ∧
      dest' = { dest with ptePages :=
        { dest.ptePages with items := done.reverse ++ dest.ptePages.items } } ∧
      m.mem.Cleaned (done ++ [p]) m'.mem ∧
      ((∃ te, e = .settingOwner te) ∧ m.phys.Pushed dest.pageOwnerId done m'.phys ∨
        e = .insufficientPtePageStorage ∧ m.phys.Pushed dest.pageOwnerId (done ++ [p]) m'.phys) := by
  unfold VmPages.addPtePagesBuilder at h
  split at h
  · cases h
    exact .inl ⟨rfl, rfl, rfl, rfl⟩
  rename_i slots hr
  obtain rfl := PageTable.eq_slots_of_invalidateRange hr
  rcases hl : VmPages.addPtePagesLoop (PageTable.slots fromAddr.bits count) v.root dest m with
    ⟨r, t, d, m₁⟩
  rw [hl] at h
  cases h
  obtain ⟨done, p, rest, hp, hd, hc, hq⟩ := addPtePagesLoop_error _ (PageTable.slots_nodup _ _) hl
  exact .inr ⟨done, p, rest, hp, rfl, hd, hc, hq⟩

set_option maxRecDepth 4000 in
/-- Once the small run has built the guest's builder, the host donates its three pages at
`0x8001_8000` to that builder with a PTE pool one page short of full (511 pages in its one
storage page): the first page is pushed, and the call stops at the second with
`InsufficientPtePageStorage`. -/
theorem addPtePagesBuilder_error_extent_small :
    ∃ s : System PageLog, Reachable smallHypMem AnyCall s ∧ ∃ v b,
      s.principals = [.vm v, .guestBuilder b] ∧ ∃ b₁ : GuestRootBuilder PageLog, ∃ v' b' m',
      b₁.root = b.root ∧ b₁.ptePages.items.length + 1 = b₁.ptePages.capacity ∧
      v.addPtePagesBuilder ⟨0x80018000, by decide, by decide⟩ 3 b₁ s.machine =
        (.error .insufficientPtePageStorage, v', b', m') ∧
      b'.ptePages.items.length = b₁.ptePages.capacity ∧
      (Error.insufficientPtePageStorage = .invalidRange ∧ v' = v ∧ b' = b₁ ∧ m' = s.machine ∨
      ∃ done p rest, PageTable.Pulls v.root (PageTable.slots 0x80018000 3) (done ++ [p])
          v'.root rest ∧
        v'.measurement = v.measurement ∧
        b' = { b₁ with ptePages :=
          { b₁.ptePages with items := done.reverse ++ b₁.ptePages.items } } ∧
        s.machine.mem.Cleaned (done ++ [p]) m'.mem ∧
        ((∃ te, Error.insufficientPtePageStorage = .settingOwner te) ∧
            s.machine.phys.Pushed b₁.pageOwnerId done m'.phys ∨
          Error.insufficientPtePageStorage = .insufficientPtePageStorage ∧
            s.machine.phys.Pushed b₁.pageOwnerId (done ++ [p]) m'.phys)) := by
  obtain ⟨s, hs, hp⟩ := exists_reachable_of_run smallHypMem (smallCalls.take 4)
    (fun s : System PageLog =>
      match s.principals with
      | [.vm v, .guestBuilder b] =>
        let b₁ : GuestRootBuilder PageLog := { b with ptePages := { b.ptePages with
          items := List.replicate 511 ⟨⟨0x80014000, by decide, by decide⟩⟩ } }
        b₁.ptePages.items.length + 1 == b₁.ptePages.capacity &&
          match v.addPtePagesBuilder ⟨0x80018000, by decide, by decide⟩ 3 b₁ s.machine with
          | (.error .insufficientPtePageStorage, _, b', _) =>
            b'.ptePages.items.length == b₁.ptePages.capacity
          | _ => false
      | _ => false) (by decide)
  refine ⟨s, hs, ?_⟩
  split at hp
  · rename_i v b hps
    simp only [Bool.and_eq_true, beq_iff_eq] at hp
    obtain ⟨hcap, hp⟩ := hp
    split at hp
    · rename_i v' b' m' herr
      exact ⟨v, b, hps, { b with ptePages := { b.ptePages with
        items := List.replicate 511 ⟨⟨0x80014000, by decide, by decide⟩⟩ } }, v', b', m', rfl,
        hcap, herr, by simpa using hp, addPtePagesBuilder_error_extent herr⟩
    · cases hp
  · cases hp

/-! ## `add_4k_pages_builder` -/

omit [Inhabited D] [DataMeasure D] in
/-- A window of guest addresses that fits below `2 ^ 64` has an address for every page. -/
theorem zipIterFrom_length : ∀ {pages : List Page4k} {a : Nat},
    a + pages.length * 4096 ≤ 2 ^ 64 → (zipIterFrom pages (some a)).length = pages.length
  | [], _, _ => rfl
  | [_], _, _ => rfl
  | p :: q :: ps, a, h => by
    simp only [List.length_cons] at h
    have hc : checkedAdd a 4096 = some (a + 4096) := checkedAdd_eq_some.mpr ⟨by omega, rfl⟩
    have hrest := zipIterFrom_length
      (show a + 4096 + (q :: ps).length * 4096 ≤ 2 ^ 64 by simp only [List.length_cons]; omega)
    simp only [zipIterFrom, iterFromNext, Option.map_some', hc, List.length_cons] at hrest ⊢
    rw [hrest]

omit [Inhabited D] in
/-- When the loop of `add_4k_pages_builder` returns `Ok` with an address for every page, it has
pulled every valid leaf of its slots and pushed the builder's id on each of their pages. -/
theorem add4kPagesBuilderLoop_ok (measurePreserve : Bool) :
    ∀ (slots : List Nat) {guestAddr : Option Nat} {t t' : PageTable}
      {dest dest' : GuestRootBuilder D} {m m' : Machine}, slots.Nodup →
    (zipIterFrom (t.validIn slots) guestAddr).length = (t.validIn slots).length →
    VmPages.add4kPagesBuilderLoop measurePreserve slots guestAddr t dest m = (.ok (), t', dest', m') →
    PageTable.Pulls t slots (t.validIn slots) t' [] ∧
      m.phys.Pushed dest.pageOwnerId (t.validIn slots) m'.phys
  | [], _, _, _, _, _, _, _, _, _, h => by
    cases h
    exact ⟨.refl _ _, .refl _ _⟩
  | g :: rest, guestAddr, t, t', dest, dest', m, m', hnd, hlen, h => by
    obtain ⟨hg, hrest⟩ := List.nodup_cons.mp hnd
    simp only [VmPages.add4kPagesBuilderLoop] at h
    split at h
    · rename_i t₁ heq
      have hp := PageTable.invalidateSlot_pulls hg heq
      have hv : t.validIn (g :: rest) = t₁.validIn rest := hp.valid
      rw [hv] at hlen ⊢
      obtain ⟨hp', hq'⟩ := add4kPagesBuilderLoop_ok measurePreserve rest hrest hlen h
      exact ⟨hp.trans hp', hq'⟩
    · rename_i p t₁ heq
      have hp := PageTable.invalidateSlot_pulls hg heq
      have hv : t.validIn (g :: rest) = p :: t₁.validIn rest := hp.valid
      rw [hv] at hlen ⊢
      rcases hit : iterFromNext guestAddr with _ | ⟨a, next⟩
      · simp [zipIterFrom, hit] at hlen
      simp only [zipIterFrom, hit, List.length_cons, Nat.add_right_cancel_iff] at hlen h
      split at h
      · cases h
      rename_i phys hset
      split at h
      · cases h
      obtain ⟨hp', hq'⟩ := add4kPagesBuilderLoop_ok measurePreserve rest hrest hlen h
      have howner :
          (if measurePreserve then dest.addDataPage a p else dest.addZeroPage a p).2.pageOwnerId =
            dest.pageOwnerId := (System.places_addPage dest measurePreserve a p).owner
      rw [howner] at hq'
      exact ⟨hp.trans hp', (PhysPages.pushed_setPageOwner hset).trans hq'⟩

omit [Inhabited D] in
/-- When `add_4k_pages_builder` returns `Ok` and the guest window fits below `2 ^ 64`, the VM's
measurement is kept; the window's valid leaves are invalidated and every other leaf is kept;
the `j`-th of their pages is mapped valid at `to_addr + j·4 KiB` in the builder; the builder's
id is pushed on each page's owner stack once per leaf that held it; and memory is untouched. -/
theorem add4kPagesBuilder_hands_over {v v' : VmPages D} {fromAddr toAddr : PageAddr PageSize4k}
    {count k : Nat} {dest dest' : GuestRootBuilder D} {measurePreserve : Bool} {m m' : Machine}
    (h : v.add4kPagesBuilder fromAddr count dest toAddr measurePreserve m = (.ok k, v', dest', m'))
    (hfit : toAddr.bits + count * 4096 ≤ 2 ^ 64) :
    v'.measurement = v.measurement ∧
      (∀ g, v'.root.entry g = if g ∈ PageTable.slots fromAddr.bits count then
        (v.root.entry g).map (fun e => { e with valid := false }) else v.root.entry g) ∧
      (∀ j p, (v.root.validIn (PageTable.slots fromAddr.bits count))[j]? = some p →
        dest'.root.entry (toAddr.bits + j * 4096) = some ⟨p, true⟩) ∧
      (∀ a, m'.phys.owners a = List.replicate
        (v.root.validCount (PageTable.slots fromAddr.bits count) a) dest.pageOwnerId ++
          m.phys.owners a) ∧
      m'.mem = m.mem := by
  unfold VmPages.add4kPagesBuilder at h
  split at h
  · cases h
  rename_i slots hr
  obtain rfl := PageTable.eq_slots_of_invalidateRange hr
  rcases hl : VmPages.add4kPagesBuilderLoop measurePreserve (PageTable.slots fromAddr.bits count)
    (some toAddr.bits) v.root dest m with ⟨r, t, d, m₁⟩
  have hmem := add4kPagesBuilderLoop_mem measurePreserve (PageTable.slots fromAddr.bits count)
    (some toAddr.bits) v.root dest m
  rw [hl] at h hmem
  rcases r with e | ⟨⟩ <;> cases h
  have hle : (v.root.validIn (PageTable.slots fromAddr.bits count)).length ≤ count :=
    (List.length_filterMap_le _ _).trans (by simp [PageTable.slots])
  have hnd := PageTable.slots_nodup fromAddr.bits count
  obtain ⟨hp, hq⟩ :=
    add4kPagesBuilderLoop_ok measurePreserve _ hnd (zipIterFrom_length (by omega)) hl
  have hm := add4kPagesBuilderLoop_maps measurePreserve _ hl hnd
  refine ⟨rfl, (hp.all rfl).2, fun j p hj => hm.mapped _ (mem_zipIterFrom hj ?_), hq.1,
    hmem⟩
  have := (List.getElem?_eq_some_iff.mp hj).1
  omega

/-- The last call of the small run: the host VM hands the page at `0x8001_C000` to the guest,
unmeasured, at its GPA 0. -/
theorem add4kPagesBuilder_hands_over_small :
    ∃ s : System PageLog, Reachable smallHypMem AnyCall s ∧ ∃ v b v' b' m',
      s.principals = [.vm v, .guestBuilder b] ∧
      v.add4kPagesBuilder ⟨0x8001C000, by decide, by decide⟩ 1 b ⟨0, by decide, by decide⟩ false
        s.machine = (.ok 1, v', b', m') ∧
      0 + 1 * 4096 ≤ 2 ^ 64 ∧
      v'.measurement = v.measurement ∧
      (∀ g, v'.root.entry g = if g ∈ PageTable.slots 0x8001C000 1 then
        (v.root.entry g).map (fun e => { e with valid := false }) else v.root.entry g) ∧
      (∀ j p, (v.root.validIn (PageTable.slots 0x8001C000 1))[j]? = some p →
        b'.root.entry (0 + j * 4096) = some ⟨p, true⟩) ∧
      (∀ a, m'.phys.owners a = List.replicate
        (v.root.validCount (PageTable.slots 0x8001C000 1) a) b.pageOwnerId ++
          s.machine.phys.owners a) ∧
      m'.mem = s.machine.mem := by
  obtain ⟨s, hs, hp⟩ := exists_reachable_of_run smallHypMem (smallCalls.take 5)
    (fun s : System PageLog =>
      match s.principals with
      | [.vm v, .guestBuilder b] =>
        match v.add4kPagesBuilder ⟨0x8001C000, by decide, by decide⟩ 1 b ⟨0, by decide, by decide⟩
          false s.machine with
        | (.ok 1, _, _, _) => true
        | _ => false
      | _ => false) (by decide)
  refine ⟨s, hs, ?_⟩
  revert hp
  split
  · rename_i v b hps
    split
    · rename_i v' b' m' hadd
      exact fun _ => ⟨v, b, v', b', m', hps, hadd, by decide,
        add4kPagesBuilder_hands_over hadd (by decide)⟩
    · nofun
  · nofun

/-! ## A failed `add_4k_pages_builder` -/

namespace PageTable

theorem mapPage4k_error_entries {t : PageTable} {gpa : Nat} {page : Page4k}
    {supply : List Page4k} {e : PageTableError} (h : (t.mapPage4k gpa page supply).1 = .error e) :
    (t.mapPage4k gpa page supply).2.1.entries = t.entries := by
  revert h
  unfold mapPage4k
  split
  · exact fun _ => rfl
  split
  · exact fun _ => rfl
  split
  · exact fun _ => rfl
  · nofun

end PageTable

namespace GuestRootBuilder

omit [Inhabited D] [DataMeasure D] in
/-- A failed `map_page_4k` adds no leaf. -/
theorem mapPage_eq_error {b b' : GuestRootBuilder D} {gpa : Nat} {page : Page4k} {e : Error}
    (h : b.mapPage gpa page = (.error e, b')) :
    (∃ te, e = .mapping4kPage te) ∧ b'.root.entries = b.root.entries ∧
      b'.measurement = b.measurement := by
  rcases hm : b.root.mapPage4k gpa page b.ptePages.items with ⟨r, root, items⟩
  simp only [mapPage, hm] at h
  cases r with
  | error te =>
    simp only [Except.mapError, Prod.mk.injEq, Except.error.injEq] at h
    obtain ⟨rfl, rfl⟩ := h
    have hent := PageTable.mapPage4k_error_entries
      (show (b.root.mapPage4k gpa page b.ptePages.items).1 = .error te by rw [hm])
    rw [hm] at hent
    exact ⟨⟨te, rfl⟩, hent, rfl⟩
  | ok => simp [Except.mapError] at h

omit [Inhabited D] in
/-- A failed `add_data_page` has measured its page; a failed `add_zero_page` has not; neither
has mapped it. -/
theorem addPage_eq_error {measurePreserve : Bool} {b b' : GuestRootBuilder D} {gpa : Nat}
    {page : Page4k} {e : Error}
    (h : (if measurePreserve then b.addDataPage gpa page else b.addZeroPage gpa page) =
      (.error e, b')) :
    (∃ te, e = .mapping4kPage te) ∧ b'.root.entries = b.root.entries ∧
      b'.measurement =
        if measurePreserve then DataMeasure.addPage b.measurement gpa page else b.measurement := by
  cases measurePreserve
  · exact mapPage_eq_error h
  · exact mapPage_eq_error (b := { b with measurement := DataMeasure.addPage b.measurement gpa page })
      h

end GuestRootBuilder

omit [Inhabited D] in
/-- When the loop of `add_4k_pages_builder` fails, it has handed over the pairs `done`, the
first pairs of `Zip`, and stopped at the next one, `(a, p)`, whose page it has pulled. -/
theorem add4kPagesBuilderLoop_error (measurePreserve : Bool) :
    ∀ (slots : List Nat) {guestAddr : Option Nat} {t t' : PageTable}
      {dest dest' : GuestRootBuilder D} {m m' : Machine} {e : Error}, slots.Nodup →
    VmPages.add4kPagesBuilderLoop measurePreserve slots guestAddr t dest m =
      (.error e, t', dest', m') →
    ∃ done a p rest dest₁, done ++ [(a, p)] <+: zipIterFrom (t.validIn slots) guestAddr ∧
      PageTable.Pulls t slots (done.map Prod.snd ++ [p]) t' rest ∧
      GuestRootBuilder.MapsPairs measurePreserve done dest dest₁ ∧
      ((∃ te, e = .settingOwner te) ∧ dest' = dest₁ ∧
          m.phys.Pushed dest.pageOwnerId (done.map Prod.snd) m'.phys ∨
        (if measurePreserve then dest₁.addDataPage a p else dest₁.addZeroPage a p) =
            (.error e, dest') ∧
          m.phys.Pushed dest.pageOwnerId (done.map Prod.snd ++ [p]) m'.phys)
  | [], _, _, _, _, _, _, _, _, _, h => by cases h
  | g :: rest, guestAddr, t, t', dest, dest', m, m', e, hnd, h => by
    obtain ⟨hg, hrest⟩ := List.nodup_cons.mp hnd
    simp only [VmPages.add4kPagesBuilderLoop] at h
    split at h
    · rename_i t₁ heq
      have hp := PageTable.invalidateSlot_pulls hg heq
      have hv : t.validIn (g :: rest) = t₁.validIn rest := hp.valid
      obtain ⟨done, a, p, rest', dest₁, hpre, hp', hm, hq⟩ :=
        add4kPagesBuilderLoop_error measurePreserve rest hrest h
      exact ⟨done, a, p, rest', dest₁, hv ▸ hpre, hp.trans hp', hm, hq⟩
    · rename_i p t₁ heq
      have hp := PageTable.invalidateSlot_pulls hg heq
      have hv : t.validIn (g :: rest) = p :: t₁.validIn rest := hp.valid
      rw [hv]
      rcases hit : iterFromNext guestAddr with _ | ⟨a, next⟩
      · simp only [hit] at h
        cases h
      simp only [hit] at h
      have hzip : zipIterFrom (p :: t₁.validIn rest) guestAddr =
          (a, p) :: zipIterFrom (t₁.validIn rest) next := by
        simp only [zipIterFrom, hit]
      rw [hzip]
      split at h
      · -- `set_page_owner` failed on `p`.
        rename_i te hset
        cases h
        exact ⟨[], a, p, rest, dest, ⟨_, rfl⟩, hp, .nil _, .inl ⟨⟨te, rfl⟩, rfl, .refl _ _⟩⟩
      rename_i phys hset
      have hpush := PhysPages.pushed_setPageOwner hset
      split at h
      · -- The mapping failed.
        rename_i e₁ dest₂ hadd
        cases h
        exact ⟨[], a, p, rest, dest, ⟨_, rfl⟩, hp, .nil _, .inr ⟨by rw [← hadd], hpush⟩⟩
      rename_i dest₂ hadd
      obtain ⟨done, a', p', rest', dest₁, hpre, hp', hm, hq⟩ :=
        add4kPagesBuilderLoop_error measurePreserve rest hrest h
      have howner :
          (if measurePreserve then dest.addDataPage a p else dest.addZeroPage a p).2.pageOwnerId =
            dest.pageOwnerId := (System.places_addPage dest measurePreserve a p).owner
      have hm₁ := (GuestRootBuilder.mapsPairs_addPage hadd).append hm fun q₁ hq₁ q₂ hq₂ => by
        rw [List.mem_singleton.mp hq₁]
        rw [next_eq_of_iterFromNext hit] at hpre
        exact (lt_of_mem_zipIterFrom (hpre.subset (List.mem_append_left _ hq₂))).ne'
      refine ⟨(a, p) :: done, a', p', rest', dest₁, List.cons_prefix_cons.mpr ⟨rfl, hpre⟩,
        hp.trans hp', hm₁, ?_⟩
      rw [howner] at hq
      rcases hq with ⟨he, hd, hq⟩ | ⟨he, hq⟩
      · exact .inl ⟨he, hd, hpush.trans hq⟩
      · exact .inr ⟨he, hpush.trans hq⟩

omit [Inhabited D] in
/-- When `add_4k_pages_builder` returns `Err`, either the range was invalid and nothing has
changed, or the call stopped at the `k`-th pair `(a, p)` of `Zip`. The pairs before it are
handed over as on success: their leaves invalidated in the VM, their pages mapped valid in the
builder, measured with `measure_preserve`, and given the builder's id. The `k`-th page is
invalidated in the VM but not mapped in the builder. If `set_page_owner` failed, it keeps its
owner stack and the builder is as the pairs before left it. If the mapping failed, it carries
the builder's id, and with `measure_preserve` the builder has measured it. The VM's
measurement, memory and the rest of the window are untouched. -/
theorem add4kPagesBuilder_error_extent {v v' : VmPages D}
    {fromAddr toAddr : PageAddr PageSize4k} {count : Nat} {dest dest' : GuestRootBuilder D}
    {measurePreserve : Bool} {m m' : Machine} {e : Error}
    (h : v.add4kPagesBuilder fromAddr count dest toAddr measurePreserve m =
      (.error e, v', dest', m')) :
    e = .invalidRange ∧ v' = v ∧ dest' = dest ∧ m' = m ∨
    ∃ done a p rest dest₁,
      done ++ [(a, p)] <+:
        zipIterFrom (v.root.validIn (PageTable.slots fromAddr.bits count)) (some toAddr.bits) ∧
      PageTable.Pulls v.root (PageTable.slots fromAddr.bits count) (done.map Prod.snd ++ [p])
        v'.root rest ∧
      GuestRootBuilder.MapsPairs measurePreserve done dest dest₁ ∧
      v'.measurement = v.measurement ∧ m'.mem = m.mem ∧
      ((∃ te, e = .settingOwner te) ∧ dest' = dest₁ ∧
          m.phys.Pushed dest.pageOwnerId (done.map Prod.snd) m'.phys ∨
        (∃ te, e = .mapping4kPage te) ∧ dest'.root.entries = dest₁.root.entries ∧
          dest'.measurement = (if measurePreserve then
            measureAll dest.measurement (done ++ [(a, p)]) else dest.measurement) ∧
          m.phys.Pushed dest.pageOwnerId (done.map Prod.snd ++ [p]) m'.phys) := by
  unfold VmPages.add4kPagesBuilder at h
  split at h
  · cases h
    exact .inl ⟨rfl, rfl, rfl, rfl⟩
  rename_i slots hr
  obtain rfl := PageTable.eq_slots_of_invalidateRange hr
  rcases hl : VmPages.add4kPagesBuilderLoop measurePreserve (PageTable.slots fromAddr.bits count)
    (some toAddr.bits) v.root dest m with ⟨r, t, d, m₁⟩
  have hmem := add4kPagesBuilderLoop_mem measurePreserve (PageTable.slots fromAddr.bits count)
    (some toAddr.bits) v.root dest m
  rw [hl] at h hmem
  rcases r with e₁ | ⟨⟩ <;> cases h
  obtain ⟨done, a, p, rest, dest₁, hpre, hp, hm, hq⟩ :=
    add4kPagesBuilderLoop_error measurePreserve _ (PageTable.slots_nodup _ _) hl
  refine .inr ⟨done, a, p, rest, dest₁, hpre, hp, hm, rfl, hmem, ?_⟩
  rcases hq with hq | ⟨hadd, hq⟩
  · exact .inl hq
  obtain ⟨he, hent, hmeas⟩ := GuestRootBuilder.addPage_eq_error hadd
  refine .inr ⟨he, hent, ?_, hq⟩
  rw [hmeas, hm.measured]
  cases measurePreserve
  · rfl
  · simp [measureAll, List.foldl_append]

/-- The host of the small run donates its leaf at `0x8001_D000` to the guest's GPA 0, which the
guest already maps: the mapping fails after the page has changed hands. -/
theorem add4kPagesBuilder_error_extent_small :
    ∃ s : System PageLog, Reachable smallHypMem AnyCall s ∧ ∃ v b v' b' m' te,
      s.principals = [.vm v, .guestBuilder b] ∧
      v.add4kPagesBuilder ⟨0x8001C000, by decide, by decide⟩ 2 b ⟨0, by decide, by decide⟩ false
        s.machine = (.error (.mapping4kPage te), v', b', m') ∧
      (Error.mapping4kPage te = .invalidRange ∧ v' = v ∧ b' = b ∧ m' = s.machine ∨
      ∃ done a p rest dest₁,
        done ++ [(a, p)] <+: zipIterFrom (v.root.validIn (PageTable.slots 0x8001C000 2)) (some 0) ∧
        PageTable.Pulls v.root (PageTable.slots 0x8001C000 2) (done.map Prod.snd ++ [p])
          v'.root rest ∧
        GuestRootBuilder.MapsPairs false done b dest₁ ∧
        v'.measurement = v.measurement ∧ m'.mem = s.machine.mem ∧
        ((∃ te', Error.mapping4kPage te = .settingOwner te') ∧ b' = dest₁ ∧
            s.machine.phys.Pushed b.pageOwnerId (done.map Prod.snd) m'.phys ∨
          (∃ te', Error.mapping4kPage te = .mapping4kPage te') ∧
            b'.root.entries = dest₁.root.entries ∧
            b'.measurement = (if false then measureAll b.measurement (done ++ [(a, p)])
              else b.measurement) ∧
            s.machine.phys.Pushed b.pageOwnerId (done.map Prod.snd ++ [p]) m'.phys)) := by
  obtain ⟨s, hs, hp⟩ := exists_reachable_of_run smallHypMem smallCalls
    (fun s : System PageLog =>
      match s.principals with
      | [.vm v, .guestBuilder b] =>
        match v.add4kPagesBuilder ⟨0x8001C000, by decide, by decide⟩ 2 b
          ⟨0, by decide, by decide⟩ false s.machine with
        | (.error (.mapping4kPage _), _, _, _) => true
        | _ => false
      | _ => false) (by decide)
  refine ⟨s, hs, ?_⟩
  revert hp
  split
  · rename_i v b hps
    split
    · rename_i te v' b' m' herr
      exact fun _ => ⟨v, b, v', b', m', te, hps, herr, add4kPagesBuilder_error_extent herr⟩
    · nofun
  · nofun

end Salus
