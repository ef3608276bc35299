import Salus.Isolation.Tables
import Mathlib.Data.List.Nodup

/-!
# The isolation invariant

What every state reached from `from_hyp_mem` satisfies while each call keeps to what its
caller promises (spec §5: a physical page is owned by exactly one principal at any time).
`Isolated` has five parts: no page is held exclusively twice; every page a principal owns has
that principal's id on top of its owner stack; an invalidated leaf whose page has its holder on
top refers to a page nobody holds; builders have no invalidated leaves; and principals have
distinct ids, all below the next id `add_active_guest` hands out.

The invariant survives the transitions every call is made of: replacing one principal by
another that holds some of its pages and some new ones, changing the owner stack of a page
nobody holds, dropping handles, and adding a builder with a fresh id.
-/

namespace Salus

variable {D : Type}

/-- The isolation invariant. -/
structure System.Isolated (s : System D) : Prop where
  nodup : s.exclusivePages.Nodup
  owned : ∀ w ∈ s.principals, ∀ p ∈ w.ownedPages,
    s.machine.phys.owner p.bits = some w.root.owner
  forgotten : ∀ w ∈ s.principals, ∀ p ∈ w.root.invalidPages,
    s.machine.phys.owner p.bits = some w.root.owner → p ∉ s.exclusivePages
  builders : ∀ w ∈ s.principals, w.isVm = false → w.root.invalidPages = []
  idsNodup : (s.principals.map (·.root.owner)).Nodup
  idsLt : ∀ w ∈ s.principals, w.root.owner.raw < s.machine.phys.nextId

theorem nodup_of_subperm {α : Type} {l l' : List α} (h : l.Subperm l') (hn : l'.Nodup) :
    l.Nodup :=
  let ⟨_, hp, hs⟩ := h
  hp.nodup_iff.mp (hs.nodup hn)

namespace Principal

theorem mem_heldPages_of_mem_ownedPages {w : Principal D} {p : Page4k} (h : p ∈ w.ownedPages) :
    p ∈ w.heldPages := by
  unfold ownedPages at h
  split at h
  · cases w <;> simp_all [heldPages, root]
  · exact h

theorem mem_ownedPages_of_mem_validPages {w : Principal D} {p : Page4k}
    (h : p ∈ w.root.validPages) : p ∈ w.ownedPages := by
  unfold ownedPages
  split
  · exact h
  · cases w <;> simp_all [heldPages, root]

theorem ownedPages_of_subset {w w' : Principal D} {X : List Page4k}
    (ho : w'.root.owner = w.root.owner)
    (hv : ∀ q ∈ w'.root.validPages, q ∈ w.root.validPages ∨ q ∈ X)
    (hh : ∀ q ∈ w'.heldPages, q ∈ w.heldPages ∨ q ∈ X) :
    ∀ q ∈ w'.ownedPages, q ∈ w.ownedPages ∨ q ∈ X := by
  unfold ownedPages
  rw [ho]
  split
  exacts [hv, hh]

end Principal

namespace System

theorem mem_exclusivePages {s : System D} {w : Principal D} {p : Page4k} (hw : w ∈ s.principals)
    (hp : p ∈ w.heldPages) : p ∈ s.exclusivePages :=
  List.mem_append_left _ (List.mem_flatMap.mpr ⟨w, hw, hp⟩)

/-- Replacing the principal at `i` by one that holds its pages less `Y` and more `X` trades `Y`
for `X` among the pages the principals hold. -/
theorem flatMap_heldPages_set {ps : List (Principal D)} {i : Nat} {w w' : Principal D}
    {X Y : List Page4k} (hw : ps[i]? = some w)
    (hheld : (w'.heldPages ++ Y).Subperm (w.heldPages ++ X)) :
    ((ps.set i w').flatMap Principal.heldPages ++ Y).Subperm
      (ps.flatMap Principal.heldPages ++ X) := by
  obtain ⟨hi, hget⟩ := List.getElem?_eq_some_iff.mp hw
  have hp := flatMap_set_perm Principal.heldPages w' ps i hi
  simp only [List.get_eq_getElem, hget] at hp
  refine List.subperm_ext_iff.mpr fun a _ => ?_
  have h1 := hp.count_eq a
  have h2 := hheld.count_le a
  simp only [List.count_append] at h1 h2 ⊢
  omega

theorem owners_set_of_eq {ps : List (Principal D)} {i : Nat} {w w' : Principal D}
    (hw : ps[i]? = some w) (ho : w'.root.owner = w.root.owner) :
    (ps.set i w').map (·.root.owner) = ps.map (·.root.owner) := by
  apply List.ext_getElem?
  intro n
  rw [List.map_set, List.getElem?_set]
  split
  · subst n
    obtain ⟨hi, hget⟩ := List.getElem?_eq_some_iff.mp hw
    simp [ho, hi, hget]
  · rfl

/-- Principals with distinct ids are told apart by their ids. -/
theorem eq_of_owner_eq {s : System D} (hs : s.Isolated) {x y : Principal D}
    (hx : x ∈ s.principals) (hy : y ∈ s.principals) (h : x.root.owner = y.root.owner) : x = y :=
  List.inj_on_of_nodup_map hs.idsNodup hx hy h

/-- The exclusive pages after a replacement, against those before and the pages added. -/
theorem Isolated.replace {m : Machine} {ps : List (Principal D)} {L : List Page4k} {i : Nat}
    {w w' : Principal D} {X Y : List Page4k} (hs : (System.mk m ps L).Isolated)
    (hw : ps[i]? = some w) (hheld : (w'.heldPages ++ Y).Subperm (w.heldPages ++ X))
    (hX : ((System.mk m ps L).exclusivePages ++ X).Nodup)
    (hXtop : ∀ q ∈ X, m.phys.owner q.bits = some w.root.owner)
    (hXinv : ∀ q ∈ X, q ∉ w.root.invalidPages) (ho : w'.root.owner = w.root.owner)
    (howned : ∀ q ∈ w'.ownedPages, q ∈ w.ownedPages ∨ q ∈ X)
    (hinv : ∀ q ∈ w'.root.invalidPages, q ∈ w.root.invalidPages ∨ q ∈ Y)
    (hbuild : w'.isVm = false → w'.root.invalidPages = []) :
    (System.mk m (ps.set i w') L).Isolated ∧
      (∀ q ∈ Y, q ∉ (System.mk m (ps.set i w') L).exclusivePages) ∧
      ((System.mk m (ps.set i w') L).exclusivePages ++ Y).Subperm
        ((System.mk m ps L).exclusivePages ++ X) := by
  have hwmem : w ∈ ps := List.getElem?_mem hw
  have hcount : ∀ a, (System.mk m (ps.set i w') L).exclusivePages.count a + Y.count a ≤
      (System.mk m ps L).exclusivePages.count a + X.count a := fun a => by
    have := (flatMap_heldPages_set hw hheld).count_le a
    simp only [exclusivePages, List.count_append] at this ⊢
    omega
  have hle : ∀ a, (System.mk m ps L).exclusivePages.count a + X.count a ≤ 1 := fun a => by
    simpa using List.nodup_iff_count_le_one.mp hX a
  have hsub : ∀ q ∈ (System.mk m (ps.set i w') L).exclusivePages,
      q ∈ (System.mk m ps L).exclusivePages ∨ q ∈ X := fun q hq => by
    have := List.count_pos_iff.mpr hq
    have := hcount q
    by_contra hn
    simp only [not_or, ← List.count_eq_zero] at hn
    omega
  have hY : ∀ q ∈ Y, q ∉ (System.mk m (ps.set i w') L).exclusivePages := fun q hq hq' => by
    have := List.count_pos_iff.mpr hq
    have := List.count_pos_iff.mpr hq'
    have := hcount q
    have := hle q
    omega
  -- A page of `X` held by another principal's table would have that principal's id on top.
  have hXout : ∀ x ∈ ps, ∀ q ∈ x.root.invalidPages,
      m.phys.owner q.bits = some x.root.owner → q ∉ X := fun x hx q hq htop hqX => by
    have hxw : x = w := eq_of_owner_eq hs hx hwmem (Option.some.inj ((htop.symm.trans
      (hXtop q hqX))))
    exact hXinv q hqX (hxw ▸ hq)
  refine ⟨⟨?_, ?_, ?_, ?_, ?_, ?_⟩, hY,
    List.subperm_ext_iff.mpr fun a _ => by simpa only [List.count_append] using hcount a⟩
  · refine List.nodup_iff_count_le_one.mpr fun a => ?_
    have := hcount a
    have := hle a
    omega
  · intro x hx q hq
    rcases List.mem_or_eq_of_mem_set hx with hx | rfl
    · exact hs.owned x hx q hq
    · rw [ho]
      exact (howned q hq).elim (hs.owned w hwmem q) (hXtop q)
  · intro x hx q hq htop hq'
    rcases List.mem_or_eq_of_mem_set hx with hx | rfl
    · rcases hsub q hq' with hq' | hq'
      · exact hs.forgotten x hx q hq htop hq'
      · exact hXout x hx q hq htop hq'
    · rcases hinv q hq with hq | hq
      · rw [ho] at htop
        rcases hsub q hq' with hq' | hq'
        · exact hs.forgotten w hwmem q hq htop hq'
        · exact hXinv q hq' hq
      · exact hY q hq hq'
  · intro x hx
    rcases List.mem_or_eq_of_mem_set hx with hx | rfl
    exacts [hs.builders x hx, hbuild]
  · simpa only [owners_set_of_eq hw ho] using hs.idsNodup
  · intro x hx
    rcases List.mem_or_eq_of_mem_set hx with hx | rfl
    · exact hs.idsLt x hx
    · rw [ho]; exact hs.idsLt w hwmem

/-- The owner stack of a page nobody holds can change at will. -/
theorem Isolated.setOwners {m m' : Machine} {ps : List (Principal D)} {L : List Page4k}
    (hs : (System.mk m ps L).Isolated) {p : Page4k}
    (hp : p ∉ (System.mk m ps L).exclusivePages) {st : List PageOwnerId}
    (hm : m'.phys = m.phys.setOwners p.bits st) : (System.mk m' ps L).Isolated := by
  have hne : ∀ q ∈ (System.mk m ps L).exclusivePages,
      m'.phys.owner q.bits = m.phys.owner q.bits := fun q hq => by
    have : q.bits ≠ p.bits := fun h => hp (Page.ext_bits h ▸ hq)
    simp [PhysPages.owner, hm, this]
  refine ⟨hs.nodup, fun x hx q hq => ?_, fun x hx q hq htop hq' => ?_, hs.builders, hs.idsNodup,
    by simpa [hm] using hs.idsLt⟩
  · rw [hne q (mem_exclusivePages hx (Principal.mem_heldPages_of_mem_ownedPages hq))]
    exact hs.owned x hx q hq
  · rw [hne q hq'] at htop
    exact hs.forgotten x hx q hq htop hq'

/-- Nothing but the owner stacks and the next id counts of the machine. -/
theorem Isolated.of_owners_eq {m m' : Machine} {ps : List (Principal D)} {L : List Page4k}
    (hs : (System.mk m ps L).Isolated) (ho : m'.phys.owners = m.phys.owners)
    (hn : m.phys.nextId ≤ m'.phys.nextId) : (System.mk m' ps L).Isolated := by
  have hown : m'.phys.owner = m.phys.owner := funext fun a => by simp [PhysPages.owner, ho]
  exact ⟨hs.nodup, by simpa only [hown] using hs.owned, by simpa only [hown] using hs.forgotten,
    hs.builders, hs.idsNodup, fun x hx => Nat.lt_of_lt_of_le (hs.idsLt x hx) hn⟩

/-- The caller may drop handles. -/
theorem Isolated.subperm_loose {m : Machine} {ps : List (Principal D)} {L L' : List Page4k}
    (hs : (System.mk m ps L).Isolated) (h : L'.Subperm L) : (System.mk m ps L').Isolated := by
  have hsub : (System.mk m ps L').exclusivePages.Subperm (System.mk m ps L).exclusivePages :=
    (List.subperm_append_left _).mpr h
  refine ⟨?_, hs.owned, fun x hx q hq htop hq' => hs.forgotten x hx q hq htop (hsub.subset hq'),
    hs.builders, hs.idsNodup, hs.idsLt⟩
  exact List.nodup_iff_count_le_one.mpr fun a =>
    (hsub.count_le a).trans (List.nodup_iff_count_le_one.mp hs.nodup a)

/-- A handle the caller gives up is then held by nobody. -/
theorem Isolated.erase_loose {m : Machine} {ps : List (Principal D)} {L : List Page4k}
    (hs : (System.mk m ps L).Isolated) {p : Page4k} (hp : p ∈ L) :
    (System.mk m ps (L.erase p)).Isolated ∧ p ∉ (System.mk m ps (L.erase p)).exclusivePages := by
  have hperm : (System.mk m ps L).exclusivePages.Perm
      (p :: (System.mk m ps (L.erase p)).exclusivePages) :=
    ((List.perm_cons_erase hp).append_left _).trans List.perm_middle
  exact ⟨hs.subperm_loose (List.erase_sublist _ _).subperm,
    (List.nodup_cons.mp (hperm.nodup_iff.mp hs.nodup)).1⟩

/-- A new builder, with an id no principal has and pages nobody holds, each with that id on
top, joins the system with one more page in the caller's hands. -/
theorem Isolated.append {m : Machine} {ps : List (Principal D)} {L : List Page4k}
    {w : Principal D} {sp : Page4k} (hs : (System.mk m ps L).Isolated)
    (hfresh : ∀ x ∈ ps, x.root.owner ≠ w.root.owner) (hlt : w.root.owner.raw < m.phys.nextId)
    (hnodup : ((System.mk m ps L).exclusivePages ++ (w.heldPages ++ [sp])).Nodup)
    (htop : ∀ q ∈ w.heldPages ++ [sp], m.phys.owner q.bits = some w.root.owner)
    (hinv : w.root.invalidPages = []) : (System.mk m (ps ++ [w]) (sp :: L)).Isolated := by
  have hperm : (System.mk m (ps ++ [w]) (sp :: L)).exclusivePages.Perm
      ((System.mk m ps L).exclusivePages ++ (w.heldPages ++ [sp])) :=
    List.perm_iff_count.mpr fun a => by
      simp only [exclusivePages, List.flatMap_append, List.flatMap_singleton, List.count_append,
        List.count_cons, List.count_nil]
      omega
  have hmem : ∀ q ∈ (System.mk m (ps ++ [w]) (sp :: L)).exclusivePages,
      q ∈ (System.mk m ps L).exclusivePages ∨ q ∈ w.heldPages ++ [sp] := fun q hq =>
    List.mem_append.mp (hperm.subset hq)
  refine ⟨hperm.nodup_iff.mpr hnodup, fun x hx q hq => ?_, fun x hx q hq htop' hq' => ?_,
    fun x hx => ?_, ?_, fun x hx => ?_⟩
  · rcases List.mem_append.mp hx with hx | hx
    · exact hs.owned x hx q hq
    · rw [List.mem_singleton.mp hx]
      exact htop q (List.mem_append_left _ (Principal.mem_heldPages_of_mem_ownedPages
        (List.mem_singleton.mp hx ▸ hq)))
  · rcases List.mem_append.mp hx with hx | hx
    · rcases hmem q hq' with hq' | hq'
      · exact hs.forgotten x hx q hq htop' hq'
      · exact hfresh x hx (Option.some.inj (htop'.symm.trans (htop q hq')))
    · rw [List.mem_singleton.mp hx, hinv] at hq
      cases hq
  · rcases List.mem_append.mp hx with hx | hx
    · exact hs.builders x hx
    · exact fun _ => List.mem_singleton.mp hx ▸ hinv
  · rw [List.map_append, List.nodup_append]
    refine ⟨hs.idsNodup, List.nodup_singleton _, fun a ha hb => ?_⟩
    obtain ⟨x, hx, rfl⟩ := List.mem_map.mp ha
    exact hfresh x hx (by simpa using hb)
  · rcases List.mem_append.mp hx with hx | hx
    · exact hs.idsLt x hx
    · exact List.mem_singleton.mp hx ▸ hlt

/-- Invalidating the valid leaf at `g` of a VM's table takes its page out of every place. -/
theorem Isolated.invalidate {m : Machine} {ps : List (Principal D)} {L : List Page4k} {i : Nat}
    {v : VmPages D} {g : Nat} {p : Page4k} (hs : (System.mk m ps L).Isolated)
    (hw : ps[i]? = some (.vm v)) (he : v.root.entry g = some ⟨p, true⟩) :
    (System.mk m (ps.set i (.vm { v with root := v.root.invalidate g })) L).Isolated ∧
      ((System.mk m (ps.set i (.vm { v with root := v.root.invalidate g })) L).exclusivePages ++
        [p]).Subperm (System.mk m ps L).exclusivePages ∧
      m.phys.owner p.bits = some v.root.owner := by
  have hvalid := v.root.validPages_invalidate g
  have hheld : ((Principal.vm { v with root := v.root.invalidate g }).heldPages ++
      v.root.validAt g).Subperm ((Principal.vm v).heldPages ++ []) := by
    simpa using (Principal.heldPages_invalidate v g).subperm
  obtain ⟨hs', -, hsub⟩ := hs.replace hw hheld (by simpa using hs.nodup) (by simp) (by simp) rfl
    (Principal.ownedPages_of_subset rfl
      (fun q hq => .inl (hvalid.subset (List.mem_append_left _ hq)))
      (fun q hq => .inl ((Principal.heldPages_invalidate v g).subset (List.mem_append_left _ hq))))
    (fun q hq => List.mem_append.mp ((v.root.invalidPages_invalidate g).subset hq))
    (by simp [Principal.isVm])
  have hp := PageTable.mem_validAt he
  refine ⟨hs', ?_, hs.owned _ (List.getElem?_mem hw) p
    (Principal.mem_ownedPages_of_mem_validPages (hvalid.subset (List.mem_append_right _ hp)))⟩
  simpa using ((List.subperm_append_left _).mpr (List.singleton_subperm_iff.mpr hp)).trans hsub

/-- Unmapping the leaf at `g` of a VM's table, valid or invalidated, takes its page out of every
place, when the page has the VM's id on top. -/
theorem Isolated.unmap {m : Machine} {ps : List (Principal D)} {L : List Page4k} {i : Nat}
    {v : VmPages D} {g : Nat} {e : Pte} (hs : (System.mk m ps L).Isolated)
    (hw : ps[i]? = some (.vm v)) (he : v.root.entry g = some e)
    (htop : m.phys.owner e.page.bits = some v.root.owner) :
    (System.mk m (ps.set i (.vm { v with root := v.root.unmap g })) L).Isolated ∧
      e.page ∉ (System.mk m (ps.set i (.vm { v with root := v.root.unmap g })) L).exclusivePages := by
  have hvalid := v.root.validPages_unmap g
  have hheld : ((Principal.vm { v with root := v.root.unmap g }).heldPages ++
      v.root.validAt g).Subperm ((Principal.vm v).heldPages ++ []) := by
    simpa using (Principal.heldPages_unmap v g).subperm
  obtain ⟨hs', hY, hsub⟩ := hs.replace hw hheld (by simpa using hs.nodup) (by simp) (by simp) rfl
    (Principal.ownedPages_of_subset rfl
      (fun q hq => .inl (hvalid.subset (List.mem_append_left _ hq)))
      (fun q hq => .inl ((Principal.heldPages_unmap v g).subset (List.mem_append_left _ hq))))
    (fun q hq => .inl ((v.root.invalidPages_unmap g).subset hq)) (by simp [Principal.isVm])
  refine ⟨hs', fun hp => ?_⟩
  cases hv : e.valid
  · have hinv := PageTable.mem_invalidPages he hv
    exact hs.forgotten _ (List.getElem?_mem hw) _ hinv htop
      (by simpa using hsub.subset (List.mem_append_left _ hp))
  · exact hY _ (PageTable.mem_validAt (hv ▸ he : v.root.entry g = some ⟨e.page, true⟩)) hp

/-- A builder takes a page nobody holds, with its id on top, into its table or PTE pool, or
drops it. -/
theorem Isolated.place {m : Machine} {ps : List (Principal D)} {L : List Page4k} {i : Nat}
    {w w' : Principal D} {p : Page4k} (hs : (System.mk m ps L).Isolated)
    (hw : ps[i]? = some w) (hb : w.isVm = false) (hp : p ∉ (System.mk m ps L).exclusivePages)
    (htop : m.phys.owner p.bits = some w.root.owner)
    (hheld : w'.heldPages.Subperm (w.heldPages ++ [p]))
    (hvalid : w'.root.validPages.Subperm (w.root.validPages ++ [p]))
    (ho : w'.root.owner = w.root.owner) (hinv : w'.root.invalidPages = w.root.invalidPages) :
    (System.mk m (ps.set i w') L).Isolated := by
  have hnone := hs.builders w (List.getElem?_mem hw) hb
  refine (hs.replace hw (by simpa using hheld : (w'.heldPages ++ []).Subperm (w.heldPages ++ [p]))
    ((List.perm_append_singleton p _).nodup_iff.mpr (List.nodup_cons.mpr ⟨hp, hs.nodup⟩))
    (by simpa using htop) (by simp [hnone]) ho
    (Principal.ownedPages_of_subset ho (fun q hq => List.mem_append.mp (hvalid.subset hq))
      (fun q hq => List.mem_append.mp (hheld.subset hq)))
    (fun q hq => .inl (hinv ▸ hq)) (fun _ => hinv.trans hnone)).1

/-- A principal may become one that holds fewer of its pages, with the same table. -/
theorem Isolated.shrink {m : Machine} {ps : List (Principal D)} {L : List Page4k} {i : Nat}
    {w w' : Principal D} (hs : (System.mk m ps L).Isolated) (hw : ps[i]? = some w)
    (hheld : w'.heldPages.Subperm w.heldPages) (hvalid : w'.root.validPages = w.root.validPages)
    (ho : w'.root.owner = w.root.owner) (hinv : w'.root.invalidPages = w.root.invalidPages)
    (hb : w'.isVm = false → w.isVm = false) : (System.mk m (ps.set i w') L).Isolated :=
  (hs.replace hw (by simpa using hheld : (w'.heldPages ++ []).Subperm (w.heldPages ++ []))
    (by simpa using hs.nodup) (by simp) (by simp) ho
    (Principal.ownedPages_of_subset ho (fun q hq => .inl (hvalid ▸ hq))
      (fun q hq => .inl (hheld.subset hq)))
    (fun q hq => .inl (hinv ▸ hq))
    (fun h => hinv.trans (hs.builders w (List.getElem?_mem hw) (hb h)))).1

end System

end Salus
