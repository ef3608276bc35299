import Salus.Measurement
import Salus.Isolation.Step

/-!
# Where `add_4k_pages_builder` puts the pages

`add_4k_pages_builder` zips the pages the invalidate iterator yields with the guest addresses
`to_addr.iter_from()` yields (`vm_pages.rs:124`). The iterator skips the slots of the window
without a valid leaf, so the `j`-th page the VM had mapped in the window, holes not counted,
goes to `to_addr + j·4 KiB`, not to the offset it had in the window. The call returns `count`,
whatever the number of pages it moved (`vm_pages.rs:135`).
-/

namespace Salus

variable {D : Type} [DataMeasure D]

namespace PageTable

theorem entry_invalidate_ne (t : PageTable) {g g' : Nat} (h : g' ≠ g) :
    (t.invalidate g).entry g' = t.entry g' := by
  obtain ⟨root, owner, nodes, entries⟩ := t
  simp only [entry, invalidate]
  induction entries with
  | nil => rfl
  | cons e es ih =>
    obtain ⟨k, x⟩ := e
    by_cases hk : k = g
    · subst hk
      simp [List.lookup_cons, beq_eq_false_iff_ne.mpr h, ih]
    · simp [List.lookup_cons, hk, ih]

/-- The page of the valid leaf at `gpa`, if there is one. -/
def validPage (t : PageTable) (gpa : Nat) : Option Page4k :=
  match t.entry gpa with
  | some ⟨p, true⟩ => some p
  | _ => none

/-- The pages of the valid leaves at `slots`, in the order of the slots. -/
def validIn (t : PageTable) (slots : List Nat) : List Page4k := slots.filterMap t.validPage

theorem invalidateSlot_fst (t : PageTable) (gpa : Nat) :
    (t.invalidateSlot gpa).1 = t.validPage gpa := by
  rcases h : t.entry gpa with _ | ⟨p, _ | _⟩ <;> simp [invalidateSlot, validPage, h]

theorem validIn_invalidate (t : PageTable) {g : Nat} {slots : List Nat} (h : g ∉ slots) :
    (t.invalidate g).validIn slots = t.validIn slots :=
  List.filterMap_congr fun g' hg' => by
    simp only [validPage, t.entry_invalidate_ne (ne_of_mem_of_not_mem hg' h)]

/-- A successful `map_page_4k` adds its leaf in front of the others. -/
theorem mapPage4k_ok {t : PageTable} {gpa : Nat} {page : Page4k} {supply : List Page4k}
    (h : (t.mapPage4k gpa page supply).1 = .ok ()) :
    (t.mapPage4k gpa page supply).2.1.entries = (gpa, ⟨page, true⟩) :: t.entries := by
  revert h
  unfold mapPage4k
  split
  · nofun
  split
  · nofun
  split
  · nofun
  · exact fun _ => rfl

theorem eq_slots_of_invalidateRange {gpa : PageAddr PageSize4k} {count : Nat} {s : List Nat}
    (h : invalidateRange gpa count = some s) : s = slots gpa.bits count := by
  unfold invalidateRange at h
  split at h
  · exact (Option.some.inj h).symm
  · cases h

theorem slots_nodup (gpa count : Nat) : (slots gpa count).Nodup :=
  (List.nodup_range count).map fun _ _ h =>
    Nat.eq_of_mul_eq_mul_right (by decide) (Nat.add_left_cancel h)

end PageTable

/-! ## The pairs of `Zip` -/

theorem next_eq_of_iterFromNext {g next : Option Nat} {a : Nat}
    (h : iterFromNext g = some (a, next)) : next = checkedAdd a 4096 := by
  cases g <;> cases h
  rfl

theorem zipIterFrom_none (pages : List Page4k) : zipIterFrom pages none = [] := by
  cases pages <;> rfl

/-- Every address `to_addr.iter_from()` yields after `a` is above `a`. -/
theorem lt_of_mem_zipIterFrom : ∀ {pages : List Page4k} {a : Nat} {q : Nat × Page4k},
    q ∈ zipIterFrom pages (checkedAdd a 4096) → a < q.1
  | [], _, _, h => by cases h
  | page :: pages, a, q, h => by
    rcases hc : checkedAdd a 4096 with _ | c
    · rw [hc, zipIterFrom_none] at h
      cases h
    obtain ⟨-, rfl⟩ := checkedAdd_eq_some.mp hc
    rw [hc] at h
    simp only [zipIterFrom, iterFromNext, Option.map_some', List.mem_cons] at h
    rcases h with rfl | h
    · exact Nat.lt_add_of_pos_right (by decide)
    · exact Nat.lt_trans (Nat.lt_add_of_pos_right (by decide)) (lt_of_mem_zipIterFrom h)

/-- The `j`-th page is paired with `a + j·4 KiB` while that address is below `2 ^ 64`. -/
theorem mem_zipIterFrom : ∀ {pages : List Page4k} {a j : Nat} {p : Page4k},
    pages[j]? = some p → a + j * 4096 < 2 ^ 64 → (a + j * 4096, p) ∈ zipIterFrom pages (some a)
  | [], _, _, _, h, _ => by cases h
  | page :: pages, a, 0, p, h, _ => by
    obtain rfl : page = p := by simpa using h
    simp [zipIterFrom, iterFromNext]
  | page :: pages, a, j + 1, p, h, hlt => by
    have hc : checkedAdd a 4096 = some (a + 4096) := checkedAdd_eq_some.mpr ⟨by omega, rfl⟩
    have := mem_zipIterFrom (a := a + 4096) (by simpa using h) (by omega)
    simp only [zipIterFrom, iterFromNext, Option.map_some', hc, List.mem_cons]
    exact .inr (by rwa [show a + (j + 1) * 4096 = a + 4096 + j * 4096 by omega])

/-! ## Builders that map pairs -/

namespace GuestRootBuilder

/-- `b'` is `b` with each page of `pairs` mapped valid at its guest address and every other
leaf kept, and with the pairs measured in order when `measurePreserve` is set. -/
structure MapsPairs (measurePreserve : Bool) (pairs : List (Nat × Page4k))
    (b b' : GuestRootBuilder D) : Prop where
  mapped : ∀ q ∈ pairs, b'.root.entry q.1 = some ⟨q.2, true⟩
  kept : ∀ a, (∀ q ∈ pairs, q.1 ≠ a) → b'.root.entry a = b.root.entry a
  measured : b'.measurement =
    if measurePreserve then measureAll b.measurement pairs else b.measurement

variable {measurePreserve : Bool}

theorem MapsPairs.nil (b : GuestRootBuilder D) : MapsPairs measurePreserve [] b b :=
  ⟨nofun, fun _ _ => rfl, by cases measurePreserve <;> rfl⟩

theorem MapsPairs.append {l₁ l₂ : List (Nat × Page4k)} {b b₁ b₂ : GuestRootBuilder D}
    (h₁ : MapsPairs measurePreserve l₁ b b₁) (h₂ : MapsPairs measurePreserve l₂ b₁ b₂)
    (hd : ∀ q₁ ∈ l₁, ∀ q₂ ∈ l₂, q₂.1 ≠ q₁.1) : MapsPairs measurePreserve (l₁ ++ l₂) b b₂ where
  mapped q hq := by
    rcases List.mem_append.mp hq with hq | hq
    · rw [h₂.kept q.1 (hd q hq)]
      exact h₁.mapped q hq
    · exact h₂.mapped q hq
  kept a ha := (h₂.kept a fun q hq => ha q (List.mem_append_right _ hq)).trans
    (h₁.kept a fun q hq => ha q (List.mem_append_left _ hq))
  measured := by
    rw [h₂.measured, h₁.measured]
    cases measurePreserve
    · rfl
    · simp [measureAll, List.foldl_append]

omit [DataMeasure D] in
/-- A successful `map_page_4k` adds its leaf in front of the others. -/
theorem mapPage_entry {b : GuestRootBuilder D} {gpa : Nat} {page : Page4k}
    (h : (b.mapPage gpa page).1 = .ok ()) (a : Nat) :
    (b.mapPage gpa page).2.root.entry a = if a = gpa then some ⟨page, true⟩ else b.root.entry a := by
  have hok : (b.root.mapPage4k gpa page b.ptePages.items).1 = .ok () := by
    have h' : (b.root.mapPage4k gpa page b.ptePages.items).1.mapError Error.mapping4kPage =
      .ok () := h
    revert h'
    cases (b.root.mapPage4k gpa page b.ptePages.items).1 <;> simp [Except.mapError]
  rw [mapPage_root, PageTable.entry, PageTable.mapPage4k_ok hok]
  by_cases ha : a = gpa
  · simp [ha]
  · simp [List.lookup_cons, beq_eq_false_iff_ne.mpr ha, ha, PageTable.entry]

/-- A successful `add_data_page` or `add_zero_page` maps its page at its address. -/
theorem mapsPairs_addPage {b : GuestRootBuilder D} {gpa : Nat} {page : Page4k}
    (h : (if measurePreserve then b.addDataPage gpa page else b.addZeroPage gpa page).1 = .ok ()) :
    MapsPairs measurePreserve [(gpa, page)] b
      (if measurePreserve then b.addDataPage gpa page else b.addZeroPage gpa page).2 := by
  have hentry : ∀ a,
      (if measurePreserve then b.addDataPage gpa page else b.addZeroPage gpa page).2.root.entry a =
        if a = gpa then some ⟨page, true⟩ else b.root.entry a := by
    cases measurePreserve
    · exact mapPage_entry h
    · exact mapPage_entry (b := { b with measurement := DataMeasure.addPage b.measurement gpa page })
        h
  refine ⟨fun q hq => ?_, fun a ha => ?_, by cases measurePreserve <;> rfl⟩
  · rw [List.mem_singleton.mp hq, hentry, if_pos rfl]
  · rw [hentry, if_neg fun h => ha _ (List.mem_singleton_self _) h.symm]

end GuestRootBuilder

/-! ## The loop -/

/-- When the loop of `add_4k_pages_builder` returns `Ok`, the builder has mapped the pages of
the valid leaves at `slots`, zipped with the guest addresses from `guestAddr`, and measured
them when `measure_preserve` is set. -/
theorem add4kPagesBuilderLoop_maps (measurePreserve : Bool) :
    ∀ (slots : List Nat) {guestAddr : Option Nat} {t t' : PageTable}
      {dest dest' : GuestRootBuilder D} {m m' : Machine},
    VmPages.add4kPagesBuilderLoop measurePreserve slots guestAddr t dest m = (.ok (), t', dest', m') →
    slots.Nodup →
    GuestRootBuilder.MapsPairs measurePreserve (zipIterFrom (t.validIn slots) guestAddr) dest dest'
  | [], _, _, _, _, _, _, _, h, _ => by cases h; exact .nil _
  | g :: rest, guestAddr, t, t', dest, dest', m, m', h, hnd => by
    obtain ⟨hg, hrest⟩ := List.nodup_cons.mp hnd
    simp only [VmPages.add4kPagesBuilderLoop] at h
    split at h
    · rename_i t₁ heq
      have hv : t.validPage g = none := by rw [← PageTable.invalidateSlot_fst, heq]
      rw [PageTable.invalidateSlot_eq_none heq] at h
      simpa [PageTable.validIn, hv] using add4kPagesBuilderLoop_maps measurePreserve rest h hrest
    · rename_i p t₁ heq
      have hv : t.validPage g = some p := by rw [← PageTable.invalidateSlot_fst, heq]
      obtain ⟨-, rfl⟩ := PageTable.invalidateSlot_eq_some heq
      have hcons : t.validIn (g :: rest) = p :: (t.invalidate g).validIn rest := by
        rw [PageTable.validIn_invalidate t hg]
        simp [PageTable.validIn, hv]
      rw [hcons]
      rcases hit : iterFromNext guestAddr with _ | ⟨a, next⟩ <;>
        simp only [zipIterFrom, hit] at h ⊢
      · cases h
        exact .nil _
      split at h
      · cases h
      split at h
      · cases h
      rename_i hadd
      refine (GuestRootBuilder.mapsPairs_addPage hadd).append
        (add4kPagesBuilderLoop_maps measurePreserve rest h hrest) fun q₁ hq₁ q₂ hq₂ => ?_
      rw [List.mem_singleton.mp hq₁]
      rw [next_eq_of_iterFromNext hit] at hq₂
      exact (lt_of_mem_zipIterFrom hq₂).ne'

/-! ## `add_4k_pages_builder` -/

/-- When `add_4k_pages_builder` returns `Ok(k)`, `k` is `count`; the `j`-th page the VM had
mapped valid in the window, holes not counted, is mapped valid at `to_addr + j·4 KiB` while that
address is below `2 ^ 64`; and with `measure_preserve` the builder has measured exactly those
pairs, in order, after what it had measured before. -/
theorem add4kPagesBuilder_places {v v' : VmPages D} {fromAddr toAddr : PageAddr PageSize4k}
    {count k : Nat} {dest dest' : GuestRootBuilder D} {measurePreserve : Bool} {m m' : Machine}
    (h : v.add4kPagesBuilder fromAddr count dest toAddr measurePreserve m = (.ok k, v', dest', m')) :
    k = count ∧
      (∀ j p, (v.root.validIn (PageTable.slots fromAddr.bits count))[j]? = some p →
        toAddr.bits + j * 4096 < 2 ^ 64 →
        dest'.root.entry (toAddr.bits + j * 4096) = some ⟨p, true⟩) ∧
      dest'.measurement = if measurePreserve then
        measureAll dest.measurement
          (zipIterFrom (v.root.validIn (PageTable.slots fromAddr.bits count)) (some toAddr.bits))
      else dest.measurement := by
  unfold VmPages.add4kPagesBuilder at h
  split at h
  · cases h
  rename_i slots hr
  obtain rfl := PageTable.eq_slots_of_invalidateRange hr
  rcases hl : VmPages.add4kPagesBuilderLoop measurePreserve (PageTable.slots fromAddr.bits count)
    (some toAddr.bits) v.root dest m with ⟨r, t, d, m₁⟩
  rw [hl] at h
  rcases r with e | ⟨⟩ <;> cases h
  have hm := add4kPagesBuilderLoop_maps measurePreserve _ hl (PageTable.slots_nodup _ _)
  exact ⟨rfl, fun j p hj hlt => hm.mapped _ (mem_zipIterFrom hj hlt), hm.measured⟩

/-- After the small machine's run, the host moves the four slots from `0x8001_4000`, measured,
to the guest's GPA `0x1000`: the second page it had mapped there lands at `0x1000 + 4 KiB`. -/
theorem add4kPagesBuilder_places_small :
    ∃ s : System PageLog, Reachable smallHypMem Admitted s ∧ ∃ v b v' b' m',
      s.principals = [.vm v, .guestBuilder b] ∧
      v.add4kPagesBuilder ⟨0x80014000, by decide, by decide⟩ 4 b ⟨0x1000, by decide, by decide⟩
        true s.machine = (.ok 4, v', b', m') ∧
      ∃ p, (v.root.validIn (PageTable.slots 0x80014000 4))[1]? = some p ∧
        b'.root.entry (0x1000 + 1 * 4096) = some ⟨p, true⟩ := by
  obtain ⟨s, hs, hp⟩ := exists_reachable_of_allowed_run smallHypMem smallCalls smallCalls_admitted
    (fun s : System PageLog =>
      match s.principals with
      | [.vm v, .guestBuilder b] =>
        match v.add4kPagesBuilder ⟨0x80014000, by decide, by decide⟩ 4 b
            ⟨0x1000, by decide, by decide⟩ true s.machine,
          (v.root.validIn (PageTable.slots 0x80014000 4))[1]? with
        | (.ok 4, _), some _ => true
        | _, _ => false
      | _ => false) (by decide)
  refine ⟨s, hs, ?_⟩
  revert hp
  split
  · rename_i v b hps
    split
    · rename_i r p hadd hp
      obtain ⟨v', b', m'⟩ := r
      intro _
      exact ⟨v, b, v', b', m', hps, hadd, p, hp,
        (add4kPagesBuilder_places hadd).2.1 1 p hp (by decide)⟩
    · nofun
  · nofun

/-- After the small machine's run, the host's window at `0x8001_4000` starts with two holes,
the slots `create_guest_root_builder` took, before two valid pages. Moving its four slots to the
guest's GPA `0x1000` returns `Ok(4)` and moves two pages: the page of the slot at
`0x8001_4000 + 2·4 KiB` lands at `0x1000`, and `0x1000 + 2·4 KiB` stays unmapped. -/
theorem add4kPagesBuilder_shifts_past_hole :
    ∃ s : System PageLog, Reachable smallHypMem Admitted s ∧ ∃ v b p v' b' m',
      s.principals = [.vm v, .guestBuilder b] ∧
      v.root.entry (0x80014000 + 2 * 4096) = some ⟨p, true⟩ ∧
      v.add4kPagesBuilder ⟨0x80014000, by decide, by decide⟩ 4 b ⟨0x1000, by decide, by decide⟩
        false s.machine = (.ok 4, v', b', m') ∧
      b'.root.entry (0x1000 + 2 * 4096) = none ∧ b'.root.entry 0x1000 = some ⟨p, true⟩ ∧
      (v.root.validIn (PageTable.slots 0x80014000 4)).length = 2 ∧
      v'.root.validIn (PageTable.slots 0x80014000 4) = [] := by
  obtain ⟨s, hs, hp⟩ := exists_reachable_of_allowed_run smallHypMem smallCalls smallCalls_admitted
    (fun s : System PageLog =>
      match s.principals with
      | [.vm v, .guestBuilder b] =>
        match v.root.entry (0x80014000 + 2 * 4096),
          v.add4kPagesBuilder ⟨0x80014000, by decide, by decide⟩ 4 b
            ⟨0x1000, by decide, by decide⟩ false s.machine with
        | some ⟨p, true⟩, (.ok 4, v', b', _) => decide (b'.root.entry (0x1000 + 2 * 4096) = none ∧
            b'.root.entry 0x1000 = some ⟨p, true⟩ ∧
            (v.root.validIn (PageTable.slots 0x80014000 4)).length = 2 ∧
            v'.root.validIn (PageTable.slots 0x80014000 4) = [])
        | _, _ => false
      | _ => false) (by decide)
  refine ⟨s, hs, ?_⟩
  revert hp
  split
  · rename_i v b hps
    split
    · rename_i p v' b' m' hp hadd
      intro h
      exact ⟨v, b, p, v', b', m', hps, hp, hadd, of_decide_eq_true h⟩
    · nofun
  · nofun

/-! ## Invalidated leaves -/

namespace PageTable

theorem entry_invalidate (t : PageTable) (g g' : Nat) :
    (t.invalidate g).entry g' =
      if g' = g then (t.entry g).map fun e => { e with valid := false } else t.entry g' := by
  split
  · subst g'
    obtain ⟨root, owner, nodes, entries⟩ := t
    simp only [entry, invalidate]
    induction entries with
    | nil => rfl
    | cons e es ih =>
      obtain ⟨k, x⟩ := e
      by_cases hk : k = g
      · subst hk
        simp [List.lookup_cons]
      · simp [List.lookup_cons, hk, beq_eq_false_iff_ne.mpr (Ne.symm hk), ih]
  · exact t.entry_invalidate_ne ‹_›

/-- How many slots hold a valid leaf of the page at `a`. -/
def validCount (t : PageTable) (slots : List Nat) (a : Nat) : Nat :=
  (t.validIn slots).countP fun p => p.bits == a

end PageTable

end Salus
