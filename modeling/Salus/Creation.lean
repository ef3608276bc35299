import Salus.Placement

/-!
# What a successful `create_guest_root_builder` builds

`create_guest_root_builder` (`vm_pages.rs:53-83`) takes a fresh id, then pulls pages from the
invalidate iterator over the six slots of the window: four for the root, handed to
`from_pages` and `T::new`, one for the PTE pool and one for the state page. The iterator is
lazy: each pull visits the slots left in order, skips those without a valid leaf, invalidates
the first valid one and yields its page, on whose owner stack the new id is pushed
(`vm_pages.rs:65-73`). So when the call succeeds the six slots all held valid leaves, and the
builder is made of their pages in slot order: the first four, which `from_pages` and `T::new`
have checked to be consecutive from a `TOP_LEVEL_ALIGN`-aligned base, are its root.
-/

namespace Salus

variable {D : Type} [Inhabited D] [DataMeasure D]

theorem eq_ok_of_toOption_eq_some {ε α : Type} {e : Except ε α} {a : α}
    (h : e.toOption = some a) : e = .ok a := by
  cases e with
  | error => cases h
  | ok x => cases h; rfl

namespace PageTable

/-- `T::new` accepts four root pages from a `TOP_LEVEL_ALIGN`-aligned base. -/
theorem new_eq_ok_checks {root : SequentialPages PageSize4k} {owner : PageOwnerId} {t : PageTable}
    (h : new root owner = .ok t) : root.count = 4 ∧ root.base % topLevelAlign = 0 := by
  unfold new at h
  split at h
  · assumption
  · cases h

theorem entry_map_invalid {t : PageTable} {g : Nat} (h : t.validPage g = none) :
    (t.entry g).map (fun e => { e with valid := false }) = t.entry g := by
  unfold validPage at h
  split at h
  · cases h
  · rename_i hx
    rcases he : t.entry g with _ | ⟨p, _ | _⟩
    · rfl
    · rfl
    · exact absurd he (hx p)

theorem validPage_eq_none_of_validIn_eq_nil {t : PageTable} {slots : List Nat}
    (h : t.validIn slots = []) {g : Nat} (hg : g ∈ slots) : t.validPage g = none :=
  List.filterMap_eq_nil_iff.mp h g hg

/-- `t'` is `t` once the invalidate iterator has pulled `pulled` from `slots`, leaving `rest` to
visit: the pulled pages are those of the valid leaves of the slots it visited, in slot order,
and the leaves it visited are invalidated, the others kept. -/
structure Pulls (t : PageTable) (slots : List Nat) (pulled : List Page4k) (t' : PageTable)
    (rest : List Nat) : Prop where
  valid : t.validIn slots = pulled ++ t'.validIn rest
  visited : ∃ pre, slots = pre ++ rest ∧
    ∀ g, t'.entry g = if g ∈ pre then (t.entry g).map fun e => { e with valid := false }
      else t.entry g

theorem Pulls.refl (t : PageTable) (slots : List Nat) : Pulls t slots [] t slots :=
  ⟨rfl, [], rfl, fun _ => rfl⟩

theorem Pulls.trans {t t₁ t₂ : PageTable} {slots rest₁ rest₂ : List Nat}
    {pulled₁ pulled₂ : List Page4k} (h₁ : Pulls t slots pulled₁ t₁ rest₁)
    (h₂ : Pulls t₁ rest₁ pulled₂ t₂ rest₂) : Pulls t slots (pulled₁ ++ pulled₂) t₂ rest₂ where
  valid := by rw [h₁.valid, h₂.valid, List.append_assoc]
  visited := by
    obtain ⟨pre₁, rfl, he₁⟩ := h₁.visited
    obtain ⟨pre₂, rfl, he₂⟩ := h₂.visited
    refine ⟨pre₁ ++ pre₂, (List.append_assoc _ _ _).symm, fun g => ?_⟩
    rw [he₂, he₁]
    by_cases g₁ : g ∈ pre₁ <;> by_cases g₂ : g ∈ pre₂ <;> simp [g₁, g₂, Option.map_map,
      Function.comp_def]

/-- The visited slots are all there is once nothing valid is left to visit. -/
theorem Pulls.all {t t' : PageTable} {slots rest : List Nat} {pulled : List Page4k}
    (h : Pulls t slots pulled t' rest) (hnil : t'.validIn rest = []) :
    t.validIn slots = pulled ∧ ∀ g, t'.entry g = if g ∈ slots then
      (t.entry g).map (fun e => { e with valid := false }) else t.entry g := by
  obtain ⟨pre, rfl, he⟩ := h.visited
  refine ⟨by rw [h.valid, hnil, List.append_nil], fun g => ?_⟩
  rw [he]
  by_cases gp : g ∈ pre
  · simp [gp]
  · by_cases gr : g ∈ rest
    · have hv := validPage_eq_none_of_validIn_eq_nil hnil gr
      rw [if_neg gp, if_pos (List.mem_append_right _ gr)]
      have hsame : t'.entry g = t.entry g := by rw [he, if_neg gp]
      unfold validPage at hv
      rw [hsame] at hv
      rw [← entry_map_invalid (show t.validPage g = none from hv)]
      simp only [Option.map_map, Function.comp_def]
    · simp [gp, gr]

theorem Pulls.nodup {t t' : PageTable} {slots rest : List Nat} {pulled : List Page4k}
    (h : Pulls t slots pulled t' rest) (hnd : slots.Nodup) : rest.Nodup := by
  obtain ⟨pre, rfl, -⟩ := h.visited
  exact hnd.sublist (List.sublist_append_right _ _)

/-- Once as many pages are pulled as there are slots, no valid leaf is left to visit. -/
theorem Pulls.rest_of_length {t t' : PageTable} {slots rest : List Nat} {pulled : List Page4k}
    (h : Pulls t slots pulled t' rest) (hlen : slots.length ≤ pulled.length) :
    t'.validIn rest = [] := by
  have hsum := congrArg List.length h.valid
  have hle : (t.validIn slots).length ≤ slots.length := List.length_filterMap_le _ _
  rw [List.length_append] at hsum
  exact List.eq_nil_of_length_eq_zero (by omega)

/-- The invalidate iterator at one slot, valid leaf or not. -/
theorem invalidateSlot_pulls {t t' : PageTable} {g : Nat} {rest : List Nat} {op : Option Page4k}
    (hg : g ∉ rest) (h : t.invalidateSlot g = (op, t')) : Pulls t (g :: rest) op.toList t' rest := by
  have hv : t.validPage g = op := by rw [← invalidateSlot_fst, h]
  cases op with
  | none =>
    obtain rfl := invalidateSlot_eq_none h
    refine ⟨by simp [validIn, hv], [g], rfl, fun g' => ?_⟩
    simp only [List.mem_singleton]
    split
    · subst g'
      exact (entry_map_invalid hv).symm
    · rfl
  | some p =>
    obtain ⟨-, rfl⟩ := invalidateSlot_eq_some h
    refine ⟨by rw [validIn_invalidate t hg]; simp [validIn, hv], [g], rfl, fun g' => ?_⟩
    rw [entry_invalidate]
    simp only [List.mem_singleton]
    split
    · subst g'
      rfl
    · rfl

/-- `next` of the invalidate iterator, when it yields a page. -/
theorem invalidateNext_pulls {t t' : PageTable} {p : Page4k} {rest : List Nat} :
    ∀ {slots : List Nat}, slots.Nodup → t.invalidateNext slots = (some (p, rest), t') →
      Pulls t slots [p] t' rest
  | [], _, h => by cases h
  | g :: gs, hnd, h => by
    obtain ⟨hg, hgs⟩ := List.nodup_cons.mp hnd
    simp only [invalidateNext] at h
    split at h
    · rename_i p₁ t₁ heq
      cases h
      exact invalidateSlot_pulls hg heq
    · rename_i t₁ heq
      exact (invalidateSlot_pulls hg heq).trans (invalidateNext_pulls hgs h)

/-- `next` of the invalidate iterator, when it yields nothing: no slot left holds a valid
leaf. -/
theorem invalidateNext_none_validIn {t t' : PageTable} :
    ∀ {slots : List Nat}, t.invalidateNext slots = (none, t') → t.validIn slots = []
  | [], _ => rfl
  | g :: gs, h => by
    simp only [invalidateNext] at h
    split at h
    · cases h
    · rename_i t₁ heq
      have hv : t.validPage g = none := by rw [← invalidateSlot_fst, heq]
      rw [invalidateSlot_eq_none heq] at h
      simpa [validIn, hv] using invalidateNext_none_validIn h

end PageTable

/-- The owner stacks once `id` has been pushed on the stack of each page of `pulled`. -/
def PhysPages.Pushed (pp : PhysPages) (id : PageOwnerId) (pulled : List Page4k)
    (pp' : PhysPages) : Prop :=
  (∀ a, pp'.owners a = List.replicate (pulled.countP fun p => p.bits == a) id ++ pp.owners a) ∧
    pp'.activeGuests = pp.activeGuests ∧ pp'.nextId = pp.nextId

namespace PhysPages

theorem Pushed.refl (pp : PhysPages) (id : PageOwnerId) : pp.Pushed id [] pp :=
  ⟨fun _ => rfl, rfl, rfl⟩

theorem Pushed.trans {pp pp₁ pp₂ : PhysPages} {id : PageOwnerId} {l₁ l₂ : List Page4k}
    (h₁ : pp.Pushed id l₁ pp₁) (h₂ : pp₁.Pushed id l₂ pp₂) : pp.Pushed id (l₁ ++ l₂) pp₂ :=
  ⟨fun a => by rw [h₂.1, h₁.1, List.countP_append, Nat.add_comm, List.replicate_add,
    List.append_assoc], h₂.2.1.trans h₁.2.1, h₂.2.2.trans h₁.2.2⟩

theorem pushed_setPageOwner {pp pp' : PhysPages} {p : Page4k} {id : PageOwnerId}
    (h : pp.setPageOwner p.addr id = .ok pp') : pp.Pushed id [p] pp' := by
  obtain ⟨-, rfl⟩ := setPageOwner_eq_ok h
  refine ⟨fun a => ?_, rfl, rfl⟩
  by_cases ha : a = p.bits
  · subst ha
    simp [Page.bits]
  · simp [Page.bits] at ha ⊢
    simp [ha, Ne.symm ha]

end PhysPages

namespace VmPages

theorem cleanPagesNext_some {id : PageOwnerId} {slots slots' : List Nat} {t t' : PageTable}
    {phys phys' : PhysPages} {p : Page4k} (hnd : slots.Nodup)
    (h : cleanPagesNext id slots t phys = some (some p, slots', t', phys')) :
    PageTable.Pulls t slots [p] t' slots' ∧ phys.Pushed id [p] phys' ∧ slots'.Nodup := by
  unfold cleanPagesNext at h
  split at h
  · cases h
  rename_i p₁ rest t₁ heq
  rcases hset : phys.setPageOwner p₁.addr id with e | phys₁ <;>
    simp only [hset, Except.toOption, Option.bind_eq_bind, Option.none_bind, Option.some_bind,
      reduceCtorEq, Option.some.injEq, Prod.mk.injEq] at h
  obtain ⟨rfl, rfl, rfl, rfl⟩ := h
  have hp := PageTable.invalidateNext_pulls hnd heq
  exact ⟨hp, PhysPages.pushed_setPageOwner hset, hp.nodup hnd⟩

theorem cleanPagesNext_none {id : PageOwnerId} {slots slots' : List Nat} {t t' : PageTable}
    {phys phys' : PhysPages}
    (h : cleanPagesNext id slots t phys = some (none, slots', t', phys')) :
    t' = t ∧ slots' = [] ∧ phys' = phys ∧ t.validIn slots = [] := by
  unfold cleanPagesNext at h
  split at h
  · rename_i t₁ heq
    cases h
    exact ⟨PageTable.invalidateNext_eq_none heq, rfl, rfl, PageTable.invalidateNext_none_validIn heq⟩
  · rename_i p₁ rest t₁ heq
    rcases hset : phys.setPageOwner p₁.addr id with e | phys₁ <;>
      simp [hset, Except.toOption] at h

/-- `clean_pages.by_ref().take(n)` pulls from the slots in order, pushing `id` on each page. -/
theorem cleanPagesTake_pulls {id : PageOwnerId} : ∀ (n : Nat) {slots slots' : List Nat}
    {t t' : PageTable} {phys phys' : PhysPages} {pulled : List Page4k}, slots.Nodup →
    cleanPagesTake id n slots t phys = some (pulled, slots', t', phys') →
    PageTable.Pulls t slots pulled t' slots' ∧ phys.Pushed id pulled phys' ∧ slots'.Nodup
  | 0, _, _, _, _, _, _, _, hnd, h => by
    cases h
    exact ⟨PageTable.Pulls.refl _ _, PhysPages.Pushed.refl _ _, hnd⟩
  | n + 1, slots, slots', t, t', phys, phys', pulled, hnd, h => by
    simp only [cleanPagesTake, Option.bind_eq_bind, Option.bind_eq_some] at h
    obtain ⟨⟨op, slots₁, t₁, phys₁⟩, hnext, h⟩ := h
    cases op with
    | none =>
      cases h
      obtain ⟨rfl, rfl, rfl, hnil⟩ := cleanPagesNext_none hnext
      refine ⟨⟨by rw [hnil]; rfl, slots, (List.append_nil _).symm, fun g => ?_⟩,
        PhysPages.Pushed.refl _ _, List.nodup_nil⟩
      split
      · exact (PageTable.entry_map_invalid
          (PageTable.validPage_eq_none_of_validIn_eq_nil hnil ‹_›)).symm
      · rfl
    | some p =>
      simp only [Option.bind_eq_some] at h
      obtain ⟨⟨pulled₁, slots₂, t₂, phys₂⟩, htake, h⟩ := h
      cases h
      obtain ⟨hp, hq, hnd₁⟩ := cleanPagesNext_some hnd hnext
      obtain ⟨hp', hq', hnd'⟩ := cleanPagesTake_pulls n hnd₁ htake
      exact ⟨hp.trans hp', hq.trans hq', hnd'⟩

end VmPages

omit [DataMeasure D] in
/-- When `create_guest_root_builder` succeeds, the six slots of the window all held valid
leaves. The builder's root is the first four of their pages, in slot order, physically
consecutive from a `TOP_LEVEL_ALIGN`-aligned base; its table has the new id, the tracker's next
one, and no node or leaf yet; its PTE pool is an empty vector stored in the fifth page; its
measurement is `D::default()`; the sixth page is the state page. The six leaves are invalidated
and every other leaf is kept; memory is untouched; the new id is entered in the active set, the
next id moves on, and the new id is pushed on the owner stack of each of the six pages. -/
theorem createGuestRootBuilder_builds {v v' : VmPages D} {fromAddr : PageAddr PageSize4k}
    {m m' : Machine} {b : GuestRootBuilder D} {sp : Page4k}
    (h : v.createGuestRootBuilder fromAddr m = some (.ok (b, sp), v', m')) :
    ∃ rootPages ptePage,
      v.root.validIn (PageTable.slots fromAddr.bits 6) = rootPages ++ [ptePage, sp] ∧
      rootPages.length = 4 ∧ b.root.rootPages = rootPages ∧
      rootPages.Chain' (fun p q => q.bits = p.bits + 4096) ∧
      rootPages.head?.map Page.bits = some b.root.root.base ∧
      b.root.root.base % topLevelAlign = 0 ∧
      b.root.owner = ⟨m.phys.nextId⟩ ∧ b.root.nodes = [] ∧ b.root.entries = [] ∧
      b.ptePages = PageVec.ofSeq (SequentialPages.ofPage ptePage) ∧ b.measurement = default ∧
      v'.measurement = v.measurement ∧
      (∀ g, v'.root.entry g = if g ∈ PageTable.slots fromAddr.bits 6 then
        (v.root.entry g).map (fun e => { e with valid := false }) else v.root.entry g) ∧
      m'.mem = m.mem ∧ m'.phys.activeGuests = m.phys.activeGuests ++ [⟨m.phys.nextId⟩] ∧
      m'.phys.nextId = m.phys.nextId + 1 ∧
      ∀ a, m'.phys.owners a = List.replicate
        ((rootPages ++ [ptePage, sp]).countP fun p => p.bits == a) ⟨m.phys.nextId⟩ ++
          m.phys.owners a := by
  unfold VmPages.createGuestRootBuilder at h
  split at h
  · cases h
  split at h
  · cases h
  rename_i id phys₁ hid
  obtain ⟨rfl, hown, hnext⟩ := PhysPages.addActiveGuest_eq_ok hid
  have hact := PhysPages.addActiveGuest_activeGuests hid
  split at h
  · cases h
  rename_i slots hr
  obtain rfl := PageTable.eq_slots_of_invalidateRange hr
  simp only [Option.bind_eq_bind, Option.bind_eq_some] at h
  obtain ⟨⟨rootPages, slots₁, t₁, phys₂⟩, htake, rootSeq, hfp, root, hnew,
    ⟨op₁, slots₂, t₂, phys₃⟩, hnext₁, ptePage, hpte, ⟨op₂, slots₃, t₃, phys₄⟩, hnext₂, sp', hsp,
    h⟩ := h
  cases h
  dsimp only at hpte hsp
  subst hpte hsp
  -- The root: what `from_pages` and `T::new` have checked.
  have hnew' := eq_ok_of_toOption_eq_some hnew
  obtain ⟨hcount, hbase⟩ := PageTable.new_eq_ok_checks hnew'
  obtain rfl := PageTable.new_eq_ok hnew'
  have hfp' := eq_ok_of_toOption_eq_some hfp
  obtain ⟨hhead, hdrain, hlen⟩ := fromPages_ok hfp'
  have hchain := ((fromPages_ok_iff rootPages).mp ⟨_, hfp'⟩).2
  have h4 : rootPages.length = 4 := hlen ▸ hcount
  -- The six pulls.
  obtain ⟨hp₁, hq₁, hnd₁⟩ := VmPages.cleanPagesTake_pulls 4 (PageTable.slots_nodup _ _) htake
  obtain ⟨hp₂, hq₂, hnd₂⟩ := VmPages.cleanPagesNext_some hnd₁ hnext₁
  obtain ⟨hp₃, hq₃, -⟩ := VmPages.cleanPagesNext_some hnd₂ hnext₂
  have hp := (hp₁.trans hp₂).trans hp₃
  have hq := (hq₁.trans hq₂).trans hq₃
  simp only [List.append_assoc, List.singleton_append] at hp hq
  obtain ⟨hvalid, hentry⟩ := hp.all (hp.rest_of_length (by simp [PageTable.slots, h4]))
  refine ⟨rootPages, ptePage, hvalid, h4, hdrain, by simpa using hchain, hhead, hbase, rfl,
    rfl, rfl, rfl, rfl, rfl, hentry, rfl, hq.2.1.trans hact, by rw [hq.2.2]; omega,
    fun a => by rw [hq.1 a, hown]⟩

/-- The guest of the small run: the host VM built by the first three calls carves a guest out
of its first six pages. -/
theorem createGuestRootBuilder_builds_small :
    ∃ s : System PageLog, Reachable smallHypMem AnyCall s ∧ ∃ v b sp v' m',
      s.principals = [.vm v] ∧
      v.createGuestRootBuilder ⟨0x80010000, by decide, by decide⟩ s.machine =
        some (.ok (b, sp), v', m') ∧
      ∃ rootPages ptePage,
        v.root.validIn (PageTable.slots 0x80010000 6) = rootPages ++ [ptePage, sp] ∧
        rootPages.length = 4 ∧ b.root.rootPages = rootPages ∧
        rootPages.Chain' (fun p q => q.bits = p.bits + 4096) ∧
        rootPages.head?.map Page.bits = some b.root.root.base ∧
        b.root.root.base % topLevelAlign = 0 ∧
        b.root.owner = ⟨s.machine.phys.nextId⟩ ∧ b.root.nodes = [] ∧ b.root.entries = [] ∧
        b.ptePages = PageVec.ofSeq (SequentialPages.ofPage ptePage) ∧ b.measurement = default ∧
        v'.measurement = v.measurement ∧
        (∀ g, v'.root.entry g = if g ∈ PageTable.slots 0x80010000 6 then
          (v.root.entry g).map (fun e => { e with valid := false }) else v.root.entry g) ∧
        m'.mem = s.machine.mem ∧
        m'.phys.activeGuests = s.machine.phys.activeGuests ++ [⟨s.machine.phys.nextId⟩] ∧
        m'.phys.nextId = s.machine.phys.nextId + 1 ∧
        ∀ a, m'.phys.owners a = List.replicate
          ((rootPages ++ [ptePage, sp]).countP fun p => p.bits == a) ⟨s.machine.phys.nextId⟩ ++
            s.machine.phys.owners a := by
  obtain ⟨s, hs, hp⟩ := exists_reachable_of_run smallHypMem (smallCalls.take 3)
    (fun s : System PageLog =>
      match s.principals with
      | [Principal.vm v] =>
        match v.createGuestRootBuilder ⟨0x80010000, by decide, by decide⟩ s.machine with
        | some (.ok (_, _), _, _) => true
        | _ => false
      | _ => false) (by decide)
  refine ⟨s, hs, ?_⟩
  revert hp
  split
  · rename_i v hps
    split
    · rename_i b sp v' m' hcreate
      exact fun _ => ⟨v, b, sp, v', m', hps, hcreate, createGuestRootBuilder_builds hcreate⟩
    · nofun
  · nofun

end Salus
