import Salus.Holdings

/-!
# Where the table operations move pages

`invalidate` and `unmap` take the valid leaves at one GPA out of a table's valid pages; the
first leaves them behind as invalidated entries, the second drops them. `map_page_4k` adds at
most its page as a valid leaf and moves pages from the PTE supplier into interior nodes. Each
fact is stated over the places of `Holdings`, as the isolation invariant uses it.
-/

namespace Salus

variable {D : Type}

namespace PageTable

/-- The pages of the valid leaves at `gpa`. -/
def validAt (t : PageTable) (gpa : Nat) : List Page4k :=
  (t.entries.filter fun e => e.1 == gpa && e.2.valid).map (·.2.page)

theorem mem_validAt {t : PageTable} {g : Nat} {p : Page4k} (h : t.entry g = some ⟨p, true⟩) :
    p ∈ t.validAt g := by
  obtain ⟨l₁, l₂, he, -⟩ := List.lookup_eq_some_iff.mp h
  simp only [validAt, he]
  simp

theorem mem_invalidPages {t : PageTable} {g : Nat} {e : Pte} (h : t.entry g = some e)
    (hv : e.valid = false) : e.page ∈ t.invalidPages := by
  obtain ⟨l₁, l₂, he, -⟩ := List.lookup_eq_some_iff.mp h
  simp only [invalidPages, he]
  simp [hv]

theorem validPages_invalidate (t : PageTable) (g : Nat) :
    ((t.invalidate g).validPages ++ t.validAt g).Perm t.validPages := by
  obtain ⟨root, owner, nodes, es⟩ := t
  simp only [validPages, validAt, invalidate]
  induction es with
  | nil => simp
  | cons e es ih =>
    by_cases hg : e.1 = g <;> cases hv : e.2.valid <;>
      simp only [List.filter_cons, List.map_cons, hg, hv, decide_True, decide_False,
        beq_self_eq_true, Bool.true_and, Bool.and_true, Bool.and_false, Bool.false_and, ne_eq,
        not_true_eq_false, not_false_eq_true, ite_true, ite_false, Bool.false_eq_true,
        List.cons_append, beq_iff_eq, reduceIte]
    · exact ih
    · exact List.perm_middle.trans (ih.cons _)
    · exact ih
    · exact ih.cons _

theorem invalidPages_invalidate (t : PageTable) (g : Nat) :
    (t.invalidate g).invalidPages.Perm (t.invalidPages ++ t.validAt g) := by
  obtain ⟨root, owner, nodes, es⟩ := t
  simp only [invalidPages, validAt, invalidate]
  induction es with
  | nil => simp
  | cons e es ih =>
    by_cases hg : e.1 = g <;> cases hv : e.2.valid <;>
      simp only [List.filter_cons, List.map_cons, hg, hv, decide_True, decide_False,
        beq_self_eq_true, Bool.true_and, Bool.and_true, Bool.and_false, Bool.false_and, ne_eq,
        not_true_eq_false, not_false_eq_true, ite_true, ite_false, Bool.false_eq_true,
        Bool.not_false, Bool.not_true, List.cons_append, beq_iff_eq, reduceIte]
    · exact ih.cons _
    · exact (ih.cons _).trans List.perm_middle.symm
    · exact ih.cons _
    · exact ih

theorem validPages_unmap (t : PageTable) (g : Nat) :
    ((t.unmap g).validPages ++ t.validAt g).Perm t.validPages := by
  obtain ⟨root, owner, nodes, es⟩ := t
  simp only [validPages, validAt, unmap]
  induction es with
  | nil => simp
  | cons e es ih =>
    by_cases hg : e.1 = g <;> cases hv : e.2.valid <;>
      simp only [List.filter_cons, List.map_cons, hg, hv, decide_True, decide_False,
        beq_self_eq_true, Bool.true_and, Bool.and_true, Bool.and_false, Bool.false_and, ne_eq,
        not_true_eq_false, not_false_eq_true, ite_true, ite_false, Bool.false_eq_true,
        List.cons_append, beq_iff_eq, reduceIte]
    · exact ih
    · exact List.perm_middle.trans (ih.cons _)
    · exact ih
    · exact ih.cons _

theorem invalidPages_unmap (t : PageTable) (g : Nat) :
    (t.unmap g).invalidPages.Sublist t.invalidPages := by
  simp only [invalidPages, unmap]
  exact ((List.filter_sublist _).filter _).map _

/-- Linking nodes moves pages from the supplier into the nodes, none lost or added. -/
theorem linkNodes_perm : ∀ (ks : List NodeKey) (nodes : List (NodeKey × Page4k))
    (supply : List Page4k),
    ((linkNodes ks nodes supply).2.1.map (·.2) ++ (linkNodes ks nodes supply).2.2).Perm
      (nodes.map (·.2) ++ supply)
  | [], _, _ => List.Perm.refl _
  | k :: ks, nodes, supply => by
    unfold linkNodes
    split
    · exact linkNodes_perm ks nodes supply
    · split
      · simp
      · rename_i p supply
        refine (linkNodes_perm ks _ supply).trans ?_
        simpa using List.perm_middle.symm

/-- `map_page_4k` keeps the root and the owner, moves pages from the supplier into nodes, and
adds at most its page as a valid leaf. -/
theorem mapPage4k_spec (t : PageTable) (gpa : Nat) (page : Page4k) (supply : List Page4k) :
    (t.mapPage4k gpa page supply).2.1.root = t.root ∧
      (t.mapPage4k gpa page supply).2.1.owner = t.owner ∧
      ((t.mapPage4k gpa page supply).2.1.nodePages ++ (t.mapPage4k gpa page supply).2.2).Perm
        (t.nodePages ++ supply) ∧
      ((t.mapPage4k gpa page supply).2.1.entries = t.entries ∨
        (t.mapPage4k gpa page supply).2.1.entries = (gpa, ⟨page, true⟩) :: t.entries) := by
  have hl := linkNodes_perm (walkKeys gpa) t.nodes supply
  unfold mapPage4k
  split
  · exact ⟨rfl, rfl, List.Perm.refl _, .inl rfl⟩
  · rcases h : linkNodes (walkKeys gpa) t.nodes supply with ⟨_ | _, nodes, supply'⟩ <;>
      rw [h] at hl
    · exact ⟨rfl, rfl, hl, .inl rfl⟩
    · dsimp only
      split
      · exact ⟨rfl, rfl, hl, .inl rfl⟩
      · exact ⟨rfl, rfl, hl, .inr rfl⟩

theorem validPages_mapPage4k (t : PageTable) (gpa : Nat) (page : Page4k) (supply : List Page4k) :
    (t.mapPage4k gpa page supply).2.1.validPages.Subperm (t.validPages ++ [page]) ∧
      (t.mapPage4k gpa page supply).2.1.invalidPages = t.invalidPages := by
  rcases (mapPage4k_spec t gpa page supply).2.2.2 with h | h <;>
    simp only [validPages, invalidPages, h]
  · exact ⟨(List.sublist_append_left _ _).subperm, trivial⟩
  · simp only [List.filter_cons_of_pos, List.map_cons, List.filter_cons_of_neg, Bool.not_true,
      Bool.false_eq_true, not_false_eq_true]
    exact ⟨List.perm_append_singleton _ _ |>.symm.subperm, trivial⟩

end PageTable

/-! ## Principals -/

namespace Principal

theorem heldPages_invalidate (v : VmPages D) (g : Nat) :
    ((vm { v with root := v.root.invalidate g } : Principal D).heldPages ++ v.root.validAt g).Perm
      (vm v).heldPages :=
  List.perm_iff_count.mpr fun a => by
    have := (v.root.validPages_invalidate g).count_eq a
    simp only [heldPages, root, PageTable.nodePages, PageTable.rootPages, List.count_append,
      PageTable.invalidate_nodes, PageTable.invalidate_root] at this ⊢
    omega

theorem heldPages_unmap (v : VmPages D) (g : Nat) :
    ((vm { v with root := v.root.unmap g } : Principal D).heldPages ++ v.root.validAt g).Perm
      (vm v).heldPages :=
  List.perm_iff_count.mpr fun a => by
    have := (v.root.validPages_unmap g).count_eq a
    simp only [heldPages, root, PageTable.nodePages, PageTable.rootPages, List.count_append,
      PageTable.unmap_nodes, PageTable.unmap_root] at this ⊢
    omega

theorem heldPages_mapPage (b : GuestRootBuilder D) (gpa : Nat) (page : Page4k) :
    (guestBuilder (b.mapPage gpa page).2 : Principal D).heldPages.Subperm
      ((guestBuilder b).heldPages ++ [page]) := by
  obtain ⟨hr, -, hn, -⟩ := b.root.mapPage4k_spec gpa page b.ptePages.items
  have hv := (b.root.validPages_mapPage4k gpa page b.ptePages.items).1
  refine List.subperm_ext_iff.mpr fun a _ => ?_
  have h1 := hv.count_le a
  have h2 := hn.count_eq a
  simp only [List.count_append] at h1 h2
  simp only [heldPages, root, GuestRootBuilder.mapPage_root, GuestRootBuilder.mapPage_ptePages,
    PageVec.pages, PageTable.rootPages, hr, List.count_append]
  omega

theorem heldPages_addPtePage (b : GuestRootBuilder D) (page : Page4k) :
    (guestBuilder (b.addPtePage page).2 : Principal D).heldPages.Subperm
      ((guestBuilder b).heldPages ++ [page]) := by
  rcases b.addPtePage_snd page with h | h <;> rw [h]
  · exact (List.sublist_append_left _ _).subperm
  · refine (List.perm_iff_count.mpr fun a => ?_).subperm
    simp only [heldPages, PageVec.pages, PageVec.push, List.count_append, List.count_cons,
      List.count_nil]
    omega

theorem heldPages_mapPage4k (root : PageTable) (ptePages : List Page4k) (d d' : D)
    (gpa : Nat) (page : Page4k) :
    (hostBuilder ⟨(root.mapPage4k gpa page ptePages).2.1, (root.mapPage4k gpa page ptePages).2.2,
      d'⟩ : Principal D).heldPages.Subperm ((hostBuilder ⟨root, ptePages, d⟩).heldPages ++ [page]) := by
  obtain ⟨hr, -, hn, -⟩ := root.mapPage4k_spec gpa page ptePages
  have hv := (root.validPages_mapPage4k gpa page ptePages).1
  refine List.subperm_ext_iff.mpr fun a _ => ?_
  have h1 := hv.count_le a
  have h2 := hn.count_eq a
  simp only [List.count_append] at h1 h2
  simp only [heldPages, PageTable.rootPages, hr, List.count_append]
  omega

end Principal

end Salus
