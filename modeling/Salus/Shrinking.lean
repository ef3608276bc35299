import Salus.Reclaim

/-!
# A running VM's table only shrinks

No call of `vm_pages.rs` maps a page into a running VM's table. `create_guest_root_builder`,
`add_pte_pages_builder` and `add_4k_pages_builder` only invalidate its leaves
(`vm_pages.rs:55-136`), `remove_4k_pages` only removes them (`vm_pages.rs:139-158`), and every
other call leaves the VM alone. Over any run, whatever each call returns, a running VM keeps its
place, the root, owner and interior nodes of its table, and each leaf of its table is kept,
invalidated with the same page, or removed: no leaf is added, made valid again or pointed at
another page. A page a VM has handed on or given back is never mapped by that VM again.
`handle_page_fault` runs the platform's `do_guest_fault`, which the model leaves abstract; it is
not a call of the system.
-/

namespace Salus

variable {D : Type} [Inhabited D] [DataMeasure D]

/-- What a leaf of a running VM's table may become: kept, invalidated if it was valid, or
removed. -/
def Pte.Decays : Option Pte → Option Pte → Prop
  | _, none => True
  | e, some e' => e = some e' ∨ ∃ p, e = some ⟨p, true⟩ ∧ e' = ⟨p, false⟩

namespace Pte

theorem Decays.refl : ∀ e : Option Pte, Decays e e
  | none => trivial
  | some _ => .inl rfl

theorem Decays.trans {e₁ e₂ e₃ : Option Pte} (h₁ : Decays e₁ e₂) (h₂ : Decays e₂ e₃) :
    Decays e₁ e₃ := by
  rcases e₃ with _ | e₃
  · trivial
  rcases e₂ with _ | e₂
  · simp [Decays] at h₂
  rcases h₂ with h₂ | ⟨p, h₂, rfl⟩
  · cases h₂
    exact h₁
  · cases h₂
    rcases h₁ with h₁ | ⟨q, -, hq⟩
    · exact .inr ⟨p, h₁, rfl⟩
    · cases hq

end Pte

/-- `t'` is `t` with fewer leaves: the same root, owner and interior nodes, and each leaf kept,
invalidated if it was valid, or removed. -/
structure PageTable.Shrinks (t t' : PageTable) : Prop where
  root : t'.root = t.root
  owner : t'.owner = t.owner
  nodes : t'.nodes = t.nodes
  entry : ∀ g, Pte.Decays (t.entry g) (t'.entry g)

namespace PageTable

theorem Shrinks.refl (t : PageTable) : t.Shrinks t :=
  ⟨rfl, rfl, rfl, fun _ => .refl _⟩

theorem Shrinks.trans {t t₁ t₂ : PageTable} (h₁ : t.Shrinks t₁) (h₂ : t₁.Shrinks t₂) :
    t.Shrinks t₂ :=
  ⟨h₂.root.trans h₁.root, h₂.owner.trans h₁.owner, h₂.nodes.trans h₁.nodes,
    fun g => (h₁.entry g).trans (h₂.entry g)⟩

theorem shrinks_invalidate (t : PageTable) (g : Nat) : t.Shrinks (t.invalidate g) := by
  refine ⟨rfl, rfl, rfl, fun g' => ?_⟩
  rw [entry_invalidate]
  split
  · subst g'
    rcases t.entry g with _ | ⟨p, _ | _⟩
    exacts [trivial, .inl rfl, .inr ⟨p, rfl, rfl⟩]
  · exact .refl _

theorem shrinks_unmap (t : PageTable) (g : Nat) : t.Shrinks (t.unmap g) := by
  refine ⟨rfl, rfl, rfl, fun g' => ?_⟩
  rw [entry_unmap]
  split
  · trivial
  · exact .refl _

end PageTable

namespace System

/-! ## The loops only invalidate or remove -/

section Loops

omit [Inhabited D] [DataMeasure D]

variable (t₀ : PageTable)

theorem shrinks_keptByHandOver : KeptByHandOver (D := D) fun t _ _ => t₀.Shrinks t where
  drop _ hq _ _ := hq.trans (PageTable.shrinks_invalidate _ _)
  put _ hq _ _ _ _ := hq.trans (PageTable.shrinks_invalidate _ _)

theorem shrinks_keptByUnmap (ownerId : PageOwnerId) :
    KeptByUnmap ownerId fun _ t _ => t₀.Shrinks t where
  pop _ hq _ := hq.trans (PageTable.shrinks_unmap _ _)
  stop _ hq _ := hq.trans (PageTable.shrinks_unmap _ _)

theorem shrinks_keptByPull (id : PageOwnerId) :
    KeptByPull id fun (_ : List Page4k) t _ => t₀.Shrinks t where
  pull _ hq _ := hq.trans (PageTable.shrinks_invalidate _ _)

end Loops

omit [DataMeasure D] in
theorem createGuestRootBuilder_shrinks {v v' : VmPages D} {fromAddr : PageAddr PageSize4k}
    {m m' : Machine} {r : Except Error (GuestRootBuilder D × Page4k)}
    (h : v.createGuestRootBuilder fromAddr m = some (r, v', m')) : v.root.Shrinks v'.root := by
  rcases createGuestRootBuilder_eq_some h with ⟨rfl, -⟩ |
    ⟨_, _, _, _, _, _, _, _, _, _, _, _, _, -, htake, hnext₁, hnext₂, -⟩
  · exact .refl _
  · exact cleanPages_induct (shrinks_keptByPull v.root _) htake hnext₁ hnext₂ (.refl _)

/-! ## Every call only shrinks the running VMs' tables -/

/-- Every running VM of `ps` is still one at its index in `ps'`, with a table that has only
shrunk; `ps'` may have more principals. -/
def VmsShrink (ps ps' : List (Principal D)) : Prop :=
  ∀ (k : Nat) (v : VmPages D), ps[k]? = some (.vm v) →
    ∃ v', ps'[k]? = some (.vm v') ∧ v.root.Shrinks v'.root

section VmsShrink

omit [Inhabited D] [DataMeasure D]

variable {ps ps' ps'' : List (Principal D)}

theorem VmsShrink.refl (ps : List (Principal D)) : VmsShrink ps ps :=
  fun _ v hk => ⟨v, hk, .refl _⟩

theorem VmsShrink.trans (h₁ : VmsShrink ps ps') (h₂ : VmsShrink ps' ps'') : VmsShrink ps ps'' := by
  intro k v hk
  obtain ⟨v₁, hk₁, hv₁⟩ := h₁ k v hk
  obtain ⟨v₂, hk₂, hv₂⟩ := h₂ k v₁ hk₁
  exact ⟨v₂, hk₂, hv₁.trans hv₂⟩

theorem VmsShrink.append (h : VmsShrink ps ps') (l : List (Principal D)) :
    VmsShrink ps (ps' ++ l) := by
  intro k v hk
  obtain ⟨v', hk', hv'⟩ := h k v hk
  exact ⟨v', by rw [List.getElem?_append_left (List.getElem?_eq_some_iff.mp hk').1, hk'], hv'⟩

/-- Replacing the principal at `i` by one whose table has only shrunk if it was a running VM. -/
theorem vmsShrink_set {i : Nat} {p q : Principal D} (hi : ps[i]? = some p)
    (hq : ∀ v, p = .vm v → ∃ v', q = .vm v' ∧ v.root.Shrinks v'.root) :
    VmsShrink ps (ps.set i q) := by
  intro k v hk
  rw [List.getElem?_set]
  split
  · subst k
    rw [hi] at hk
    obtain ⟨v', rfl, hv⟩ := hq v (Option.some.inj hk)
    exact ⟨v', by rw [if_pos (List.getElem?_eq_some_iff.mp hi).1], hv⟩
  · exact ⟨v, hk, .refl _⟩

/-- A VM call with a builder: the VM at `i`, whose table has only shrunk, and the builder at `j`
replaced. -/
theorem vmsShrink_withPair {i j : Nat} {v v' : VmPages D} {b b' : GuestRootBuilder D}
    (hv : ps[i]? = some (.vm v)) (hb : ps[j]? = some (.guestBuilder b))
    (ht : v.root.Shrinks v'.root) :
    VmsShrink ps ((ps.set i (.vm v')).set j (.guestBuilder b')) :=
  (vmsShrink_set hv fun _ he => by cases he; exact ⟨v', rfl, ht⟩).trans
    (vmsShrink_set (p := .guestBuilder b)
      (by rwa [List.getElem?_set_ne (ne_of_vm_guestBuilder hv hb)]) fun _ => nofun)

end VmsShrink

/-- One call only shrinks the tables of the running VMs. -/
theorem vmsShrink_step {s s' : System D} {c : Call} {r : Except Error Unit}
    (h : s.step c = some (s', r)) : VmsShrink s.principals s'.principals := by
  obtain ⟨m, ps, L⟩ := s
  cases c with
  | add4kDataPages i toAddr pages =>
    obtain ⟨b, b', phys', hb, -, -, rfl⟩ := hostCall_eq_some h
    exact vmsShrink_set hb fun _ => nofun
  | add4kPages i toAddr pages =>
    obtain ⟨b, b', phys', hb, -, -, rfl⟩ := hostCall_eq_some h
    exact vmsShrink_set hb fun _ => nofun
  | createHost i =>
    obtain ⟨b, hb, rfl⟩ := step_createHost h
    exact vmsShrink_set hb fun _ => nofun
  | createGuestRootBuilder i fromAddr =>
    obtain ⟨v, r', v', m', hv, hc, hs⟩ := step_createGuestRootBuilder h
    have hg := vmsShrink_set hv fun _ he => by
      cases he
      exact ⟨v', rfl, createGuestRootBuilder_shrinks hc⟩
    rcases r' with e | ⟨b, sp⟩ <;> subst hs
    · exact hg
    · exact hg.append _
  | addPtePagesBuilder i fromAddr count j =>
    obtain ⟨v, b, v', b', m', hv, hb, hc, rfl⟩ := step_addPtePagesBuilder h
    obtain ⟨slots, _, hl, -⟩ := VmPages.addPtePagesBuilder_eq_loop hc
    exact vmsShrink_withPair hv hb (addPtePagesLoop_induct (shrinks_keptByHandOver v.root) slots hl
      (.refl _))
  | add4kPagesBuilder i fromAddr count j toAddr measurePreserve =>
    obtain ⟨v, b, r', v', b', m', hv, hb, hc, rfl⟩ := step_add4kPagesBuilder h
    obtain ⟨slots, _, hl, -⟩ := VmPages.add4kPagesBuilder_eq_loop hc
    exact vmsShrink_withPair hv hb (add4kPagesBuilderLoop_induct (shrinks_keptByHandOver v.root)
      measurePreserve slots hl (.refl _))
  | remove4kPages i fromAddr count =>
    obtain ⟨v, r', v', m', hv, hc, rfl⟩ := step_remove4kPages h
    obtain ⟨slots, _, hl, -, -⟩ := VmPages.remove4kPages_eq_loop hc
    exact vmsShrink_set hv fun _ he => by
      cases he
      exact ⟨v', rfl, remove4kPagesLoop_induct (shrinks_keptByUnmap v.root _) slots hl (.refl _)⟩
  | addPtePage j page =>
    obtain ⟨b, hb, -, rfl⟩ := builderCall_eq_some h
    exact vmsShrink_set hb fun _ => nofun
  | addDataPage j gpa page =>
    obtain ⟨b, hb, -, rfl⟩ := builderCall_eq_some
      (show (System.mk m ps L).builderCall j page (fun b => b.addDataPage gpa page) = _ from h)
    exact vmsShrink_set hb fun _ => nofun
  | addZeroPage j gpa page =>
    obtain ⟨b, hb, -, rfl⟩ := builderCall_eq_some
      (show (System.mk m ps L).builderCall j page (fun b => b.addZeroPage gpa page) = _ from h)
    exact vmsShrink_set hb fun _ => nofun
  | createPages j =>
    obtain ⟨b, hb, rfl⟩ := step_createPages h
    exact vmsShrink_set hb fun _ => nofun

end System

/-- Over any run of calls, whatever each returns, every running VM is still a running VM at its
index, and its table keeps its root, owner and interior nodes while each of its leaves is kept,
invalidated with the same page, or removed. -/
theorem run_vm_tables_shrink {s s' : System D} {cs : List Call} (h : s.run cs = some s') :
    ∀ (k : Nat) (v : VmPages D), s.principals[k]? = some (.vm v) →
      ∃ v', s'.principals[k]? = some (.vm v') ∧ v.root.Shrinks v'.root := by
  induction cs generalizing s with
  | nil =>
    cases h
    exact System.VmsShrink.refl _
  | cons c cs ih =>
    simp only [System.run] at h
    split at h
    · rename_i s₁ r hstep
      exact (System.vmsShrink_step hstep).trans (ih h)
    · cases h

/-- Over the small machine's run after `create_host`, the host's valid leaf at `0x8001_C000`
ends up invalidated: the host has handed the page to its guest, and its table has only shrunk. -/
theorem run_vm_tables_shrink_small :
    ∃ s : System PageLog, Reachable smallHypMem AnyCall s ∧ ∃ v s',
      s.principals[0]? = some (.vm v) ∧ s.run (smallCalls.drop 3) = some s' ∧
      (v.root.entry 0x8001C000).map (·.valid) = some true ∧
      ∃ v', s'.principals[0]? = some (.vm v') ∧
        (v'.root.entry 0x8001C000).map (·.valid) = some false ∧ v.root.Shrinks v'.root := by
  obtain ⟨s, hs, hp⟩ := exists_reachable_of_run smallHypMem (smallCalls.take 3)
    (fun s : System PageLog =>
      match s.principals[0]?, s.run (smallCalls.drop 3) with
      | some (Principal.vm v), some s' =>
        (v.root.entry 0x8001C000).map (·.valid) == some true &&
          match s'.principals[0]? with
          | some (Principal.vm v') => (v'.root.entry 0x8001C000).map (·.valid) == some false
          | _ => false
      | _, _ => false) (by decide)
  refine ⟨s, hs, ?_⟩
  revert hp
  split
  · rename_i v s' hk hr
    obtain ⟨v', hk', hv'⟩ := run_vm_tables_shrink hr 0 v hk
    simp only [hk', Bool.and_eq_true, beq_iff_eq]
    exact fun hp => ⟨v, s', hk, hr, hp.1, v', hk', hp.2, hv'⟩
  · nofun

end Salus
