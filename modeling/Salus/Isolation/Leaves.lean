import Salus.Isolation.Conservation

/-!
# No call makes up a page

`Conservation` follows the pages held exclusively. A table also keeps pages it no longer holds:
the leaf of a page a VM has handed on stays in its table, invalidated (`vm_pages.rs:92, 117`),
until `remove_4k_pages` unmaps it. Such a leaf still names a page someone held before the call.
A running VM's table only loses leaves or turns them invalid. A builder's table gains only
valid leaves, through `map_page_4k` (`vm_pages.rs:244, 271, 332-345`), so its invalidated leaves
are those of the builder it was, and the builder `create_guest_root_builder` makes has none.

So no call makes up a page anywhere the system keeps one: every page a principal holds after a
call, in a leaf of its table (valid or invalidated), a node, its root or its PTE pool, and every
page the caller then holds, was held by someone before it. From boot on, each is a page
`HypPageAlloc` handed to `from_hyp_mem`.
-/

namespace Salus

variable {D : Type} [Inhabited D] [DataMeasure D]

namespace PageTable

@[simp] theorem entryPages_invalidate (t : PageTable) (g : Nat) :
    (t.invalidate g).entryPages = t.entryPages := by
  simp only [entryPages, invalidate, List.map_map]
  congr 1
  funext e
  simp only [Function.comp]
  split <;> rfl

theorem entryPages_unmap_sublist (t : PageTable) (g : Nat) :
    (t.unmap g).entryPages.Sublist t.entryPages :=
  (List.filter_sublist _).map _

/-- A table's leaves are its valid leaves and its invalidated ones. -/
theorem validPages_append_invalidPages_perm (t : PageTable) :
    (t.validPages ++ t.invalidPages).Perm t.entryPages := by
  simp only [validPages, invalidPages, entryPages, ← List.map_append]
  exact (List.filter_append_perm _ _).map _

/-- A leaf is valid or invalidated. -/
theorem mem_of_mem_entryPages {t : PageTable} {p : Page4k} (h : p ∈ t.entryPages) :
    p ∈ t.validPages ∨ p ∈ t.invalidPages :=
  List.mem_append.mp ((validPages_append_invalidPages_perm t).symm.subset h)

theorem mem_entryPages_of_mem_invalidPages {t : PageTable} {p : Page4k}
    (h : p ∈ t.invalidPages) : p ∈ t.entryPages :=
  (validPages_append_invalidPages_perm t).subset (List.mem_append_right _ h)

end PageTable

namespace System

section Loops

omit [Inhabited D] [DataMeasure D]

variable {t₀ : PageTable}

theorem entryPages_keptByHandOver :
    KeptByHandOver (D := D) fun t _ _ => t.entryPages.Sublist t₀.entryPages where
  drop _ hq _ _ := by rwa [PageTable.entryPages_invalidate]
  put _ hq _ _ _ _ := by rwa [PageTable.entryPages_invalidate]

theorem entryPages_keptByUnmap (ownerId : PageOwnerId) :
    KeptByUnmap ownerId fun _ t _ => t.entryPages.Sublist t₀.entryPages where
  pop _ hq _ := (PageTable.entryPages_unmap_sublist _ _).trans hq
  stop _ hq _ := (PageTable.entryPages_unmap_sublist _ _).trans hq

theorem entryPages_keptByPull (id : PageOwnerId) :
    KeptByPull id fun (_ : List Page4k) t _ => t.entryPages.Sublist t₀.entryPages where
  pull _ hq _ := by rwa [PageTable.entryPages_invalidate]

/-- The host's loop keeps the invalidated leaves of the host's table. -/
theorem invalidPages_keptByMap (I : List Page4k) :
    KeptByMap fun _ root _ _ => root.invalidPages = I where
  map hq _ := (PageTable.validPages_mapPage4k _ _ _ _).2.trans hq
  drop hq := hq

/-- Hand-overs keep the invalidated leaves of the builder's table. -/
theorem invalidPages_keptByHandOver (I : List Page4k) :
    KeptByHandOver (D := D) fun _ dest _ => dest.root.invalidPages = I where
  drop _ hq _ _ := hq
  put _ hq _ hpl _ _ := hpl.invalid.trans hq

end Loops

section Step

omit [Inhabited D] [DataMeasure D]

variable {ps : List (Principal D)} {k : Nat} {w' : Principal D} {v' : VmPages D}

/-- The principal at `k` after a replacement at `i` is the one put there, or was there before. -/
theorem getElem?_set_cases {i : Nat} {x : Principal D} (hk : (ps.set i x)[k]? = some w') :
    (i = k ∧ x = w') ∨ ps[k]? = some w' := by
  by_cases hik : i = k
  · subst hik
    rw [List.getElem?_set_self (by simpa using (List.getElem?_eq_some_iff.mp hk).1)] at hk
    exact .inl ⟨rfl, Option.some.inj hk⟩
  · rw [List.getElem?_set_ne hik] at hk
    exact .inr hk

/-- The principal at `k` after one was appended is the appended one, or was there before. -/
theorem getElem?_append_cases {x : Principal D} (hk : (ps ++ [x])[k]? = some w') :
    ps[k]? = some w' ∨ x = w' := by
  by_cases hkl : k < ps.length
  · rw [List.getElem?_append_left hkl] at hk
    exact .inl hk
  · rw [List.getElem?_append_right (Nat.le_of_not_lt hkl)] at hk
    exact .inr (List.mem_singleton.mp (List.getElem?_mem hk)).symm

theorem entryPages_set {i : Nat} {x : Principal D} (hk : (ps.set i x)[k]? = some (.vm v'))
    (hx : x = .vm v' → ∃ w, ps[i]? = some w ∧ v'.root.entryPages.Sublist w.root.entryPages) :
    ∃ w, ps[k]? = some w ∧ v'.root.entryPages.Sublist w.root.entryPages := by
  rcases getElem?_set_cases hk with ⟨rfl, he⟩ | hk'
  · exact hx he
  · exact ⟨_, hk', .refl _⟩

/-- A builder put at `j` is not the VM found at `k`. -/
theorem getElem?_set_builder {j : Nat} {b : GuestRootBuilder D}
    (hk : (ps.set j (.guestBuilder b))[k]? = some (.vm v')) : ps[k]? = some (.vm v') :=
  (getElem?_set_cases hk).resolve_left fun ⟨_, he⟩ => nomatch he

/-- A VM put at `i` is not the builder found at `k`. -/
theorem getElem?_set_vm {i : Nat} {v : VmPages D} (hk : (ps.set i (.vm v))[k]? = some w')
    (hb : w'.isVm = false) : ps[k]? = some w' :=
  (getElem?_set_cases hk).resolve_left fun ⟨_, he⟩ => by subst he; cases hb

/-- The guest builder `create_guest_root_builder` appends is not a VM. -/
theorem entryPages_append_builder {b : GuestRootBuilder D}
    (hk : (ps ++ [.guestBuilder b])[k]? = some (.vm v')) : ps[k]? = some (.vm v') :=
  (getElem?_append_cases hk).resolve_right nofun

end Step

omit [DataMeasure D] in
theorem createGuestRootBuilder_entryPages {v v' : VmPages D} {fromAddr : PageAddr PageSize4k}
    {m m' : Machine} {r : Except Error (GuestRootBuilder D × Page4k)}
    (h : v.createGuestRootBuilder fromAddr m = some (r, v', m')) :
    v'.root.entryPages.Sublist v.root.entryPages := by
  rcases createGuestRootBuilder_eq_some h with ⟨rfl, -⟩ |
    ⟨_, _, _, _, _, _, _, _, _, _, _, _, _, -, htake, hnext₁, hnext₂, -⟩
  · exact .refl _
  · exact cleanPages_induct (entryPages_keptByPull _) htake hnext₁ hnext₂ (.refl _)

omit [DataMeasure D] in
/-- The builder `create_guest_root_builder` makes has no leaf. -/
theorem createGuestRootBuilder_invalidPages {v v' : VmPages D} {fromAddr : PageAddr PageSize4k}
    {m m' : Machine} {b : GuestRootBuilder D} {sp : Page4k}
    (h : v.createGuestRootBuilder fromAddr m = some (.ok (b, sp), v', m')) :
    b.root.invalidPages = [] := by
  rcases createGuestRootBuilder_eq_some h with ⟨-, -, -, -, _, he⟩ |
    ⟨_, _, _, _, _, _, _, _, _, _, _, _, _, -, -, -, -, -, -, he, -, -, hb⟩
  · cases he
  · cases he
    simp [PageTable.invalidPages, hb]

/-- After any call, the leaves of a running VM are a sublist of those of the principal at its
index before: the same VM, or the builder `create_host` or `create_pages` made it from. -/
theorem entryPages_step {s s' : System D} {c : Call} {r : Except Error Unit}
    (h : s.step c = some (s', r)) {k : Nat} {v' : VmPages D}
    (hk : s'.principals[k]? = some (.vm v')) :
    ∃ w, s.principals[k]? = some w ∧ v'.root.entryPages.Sublist w.root.entryPages := by
  obtain ⟨m, ps, L⟩ := s
  have hbuilder : ∀ {j page} {f : GuestRootBuilder D → Except Error Unit × GuestRootBuilder D},
      (System.mk m ps L).builderCall j page f = some (s', r) →
        ∃ w, ps[k]? = some w ∧ v'.root.entryPages.Sublist w.root.entryPages := fun h => by
    obtain ⟨b, -, -, rfl⟩ := builderCall_eq_some h
    exact entryPages_set hk nofun
  cases c with
  | add4kDataPages i toAddr pages =>
    obtain ⟨b, b', phys', -, -, -, rfl⟩ := hostCall_eq_some h
    exact entryPages_set hk nofun
  | add4kPages i toAddr pages =>
    obtain ⟨b, b', phys', -, -, -, rfl⟩ := hostCall_eq_some h
    exact entryPages_set hk nofun
  | createHost i =>
    obtain ⟨b, hb, rfl⟩ := step_createHost h
    exact entryPages_set hk fun he => by cases he; exact ⟨_, hb, .refl _⟩
  | createGuestRootBuilder i fromAddr =>
    obtain ⟨v, r', v'', m', hv, hc, h⟩ := step_createGuestRootBuilder h
    have hx : Principal.vm v'' = .vm v' →
        ∃ w, ps[i]? = some w ∧ v'.root.entryPages.Sublist w.root.entryPages := fun he => by
      cases he
      exact ⟨_, hv, createGuestRootBuilder_entryPages hc⟩
    rcases r' with _ | ⟨b, sp⟩ <;> (dsimp only at h; subst h)
    · exact entryPages_set hk hx
    · exact entryPages_set (entryPages_append_builder hk) hx
  | addPtePagesBuilder i fromAddr count j =>
    obtain ⟨v, b, v'', b', m', hv, -, hc, rfl⟩ := step_addPtePagesBuilder h
    obtain ⟨slots, _, hl, -⟩ := VmPages.addPtePagesBuilder_eq_loop hc
    refine entryPages_set (getElem?_set_builder hk) fun he => ?_
    cases he
    exact ⟨_, hv, addPtePagesLoop_induct entryPages_keptByHandOver slots hl (.refl _)⟩
  | add4kPagesBuilder i fromAddr count j toAddr measurePreserve =>
    obtain ⟨v, b, r', v'', b', m', hv, -, hc, rfl⟩ := step_add4kPagesBuilder h
    obtain ⟨slots, _, hl, -⟩ := VmPages.add4kPagesBuilder_eq_loop hc
    refine entryPages_set (getElem?_set_builder hk) fun he => ?_
    cases he
    exact ⟨_, hv, add4kPagesBuilderLoop_induct entryPages_keptByHandOver measurePreserve slots hl
      (.refl _)⟩
  | remove4kPages i fromAddr count =>
    obtain ⟨v, r', v'', m', hv, hc, rfl⟩ := step_remove4kPages h
    obtain ⟨slots, _, hl, -, -⟩ := VmPages.remove4kPages_eq_loop hc
    refine entryPages_set hk fun he => ?_
    cases he
    exact ⟨_, hv, remove4kPagesLoop_induct (entryPages_keptByUnmap _) slots hl (.refl _)⟩
  | addPtePage j page => exact hbuilder h
  | addDataPage j gpa page =>
    exact hbuilder (show (System.mk m ps L).builderCall j page
      (fun b => b.addDataPage gpa page) = _ from h)
  | addZeroPage j gpa page =>
    exact hbuilder (show (System.mk m ps L).builderCall j page
      (fun b => b.addZeroPage gpa page) = _ from h)
  | createPages j =>
    obtain ⟨b, hb, rfl⟩ := step_createPages h
    exact entryPages_set hk fun he => by cases he; exact ⟨_, hb, .refl _⟩

/-- After any call, a builder has the invalidated leaves of the principal at its index before,
or none: the builder `create_guest_root_builder` appends has no leaf at all. -/
theorem invalidPages_step_of_builder {s s' : System D} {c : Call} {r : Except Error Unit}
    (h : s.step c = some (s', r)) {k : Nat} {w' : Principal D}
    (hk : s'.principals[k]? = some w') (hb : w'.isVm = false) :
    w'.root.invalidPages = [] ∨
      ∃ w, s.principals[k]? = some w ∧ w'.root.invalidPages = w.root.invalidPages := by
  obtain ⟨m, ps, L⟩ := s
  have hhost : ∀ {i pages} {toAddr : PageAddr PageSize4k}
      {f : HostRootBuilder D → PhysPages → Option (HostRootBuilder D × PhysPages)},
      (∀ b phys b' phys', f b phys = some (b', phys') → ∃ d d' : D,
        HostRootBuilder.add4kDataPagesLoop pages (some toAddr.bits) d b.root b.ptePages phys =
          some (d', b'.root, b'.ptePages, phys')) →
      (System.mk m ps L).hostCall i pages f = some (s', r) → w'.root.invalidPages = [] ∨
        ∃ w, ps[k]? = some w ∧ w'.root.invalidPages = w.root.invalidPages := fun hf h => by
    obtain ⟨b, b', phys', hb', -, hfb, rfl⟩ := hostCall_eq_some h
    obtain ⟨_, _, hloop⟩ := hf _ _ _ _ hfb
    rcases getElem?_set_cases hk with ⟨rfl, rfl⟩ | hk
    · exact .inr ⟨_, hb', add4kDataPagesLoop_induct (invalidPages_keptByMap _) _ hloop rfl⟩
    · exact .inr ⟨w', hk, rfl⟩
  have hbuilder : ∀ {j page} {f : GuestRootBuilder D → Except Error Unit × GuestRootBuilder D},
      (∀ b, (f b).2.root.invalidPages = b.root.invalidPages) →
      (System.mk m ps L).builderCall j page f = some (s', r) → w'.root.invalidPages = [] ∨
        ∃ w, ps[k]? = some w ∧ w'.root.invalidPages = w.root.invalidPages := fun hf h => by
    obtain ⟨b, hb', -, rfl⟩ := builderCall_eq_some h
    rcases getElem?_set_cases hk with ⟨rfl, rfl⟩ | hk
    · exact .inr ⟨_, hb', hf b⟩
    · exact .inr ⟨w', hk, rfl⟩
  cases c with
  | add4kDataPages i toAddr pages =>
    exact hhost (fun _ _ _ _ hf => ⟨_, _, add4kDataPages_loop hf⟩) h
  | add4kPages i toAddr pages =>
    exact hhost (fun _ _ _ _ hf => ⟨default, add4kPages_loop default hf⟩) h
  | createHost i =>
    obtain ⟨b, -, rfl⟩ := step_createHost h
    exact .inr ⟨w', getElem?_set_vm hk hb, rfl⟩
  | createGuestRootBuilder i fromAddr =>
    obtain ⟨v, r', v', m', -, hc, h⟩ := step_createGuestRootBuilder h
    rcases r' with _ | ⟨b, sp⟩ <;> (dsimp only at h; subst h)
    · exact .inr ⟨w', getElem?_set_vm hk hb, rfl⟩
    · rcases getElem?_append_cases hk with hk | rfl
      · exact .inr ⟨w', getElem?_set_vm hk hb, rfl⟩
      · exact .inl (createGuestRootBuilder_invalidPages hc)
  | addPtePagesBuilder i fromAddr count j =>
    obtain ⟨v, b, v', b', m', -, hb', hc, rfl⟩ := step_addPtePagesBuilder h
    obtain ⟨slots, _, hl, -⟩ := VmPages.addPtePagesBuilder_eq_loop hc
    rcases getElem?_set_cases hk with ⟨rfl, rfl⟩ | hk
    · exact .inr ⟨_, hb', addPtePagesLoop_induct (invalidPages_keptByHandOver _) slots hl rfl⟩
    · exact .inr ⟨w', getElem?_set_vm hk hb, rfl⟩
  | add4kPagesBuilder i fromAddr count j toAddr measurePreserve =>
    obtain ⟨v, b, r', v', b', m', -, hb', hc, rfl⟩ := step_add4kPagesBuilder h
    obtain ⟨slots, _, hl, -⟩ := VmPages.add4kPagesBuilder_eq_loop hc
    rcases getElem?_set_cases hk with ⟨rfl, rfl⟩ | hk
    · exact .inr ⟨_, hb', add4kPagesBuilderLoop_induct (invalidPages_keptByHandOver _)
        measurePreserve slots hl rfl⟩
    · exact .inr ⟨w', getElem?_set_vm hk hb, rfl⟩
  | remove4kPages i fromAddr count =>
    obtain ⟨v, r', v', m', -, -, rfl⟩ := step_remove4kPages h
    exact .inr ⟨w', getElem?_set_vm hk hb, rfl⟩
  | addPtePage j page => exact hbuilder (fun b => (places_addPtePage b page).invalid) h
  | addDataPage j gpa page => exact hbuilder (fun b => (places_addDataPage b gpa page).invalid) h
  | addZeroPage j gpa page => exact hbuilder (fun b => (places_addZeroPage b gpa page).invalid) h
  | createPages j =>
    obtain ⟨b, -, rfl⟩ := step_createPages h
    exact .inr ⟨w', getElem?_set_vm hk hb, rfl⟩

/-- After any call, every invalidated leaf of a principal's table is a leaf of the principal at
its index before. -/
theorem invalidPages_step {s s' : System D} {c : Call} {r : Except Error Unit}
    (h : s.step c = some (s', r)) {k : Nat} {w' : Principal D}
    (hk : s'.principals[k]? = some w') {p : Page4k} (hp : p ∈ w'.root.invalidPages) :
    ∃ w, s.principals[k]? = some w ∧ p ∈ w.root.entryPages := by
  cases hvm : w'.isVm with
  | false =>
    rcases invalidPages_step_of_builder h hk hvm with hnil | ⟨w, hw, he⟩
    · simp [hnil] at hp
    · exact ⟨w, hw, PageTable.mem_entryPages_of_mem_invalidPages (he ▸ hp)⟩
  | true =>
    cases w' with
    | vm v' =>
      obtain ⟨w, hw, hsub⟩ := entryPages_step h hk
      exact ⟨w, hw, hsub.subset (PageTable.mem_entryPages_of_mem_invalidPages hp)⟩
    | hostBuilder _ => nomatch hvm
    | guestBuilder _ => nomatch hvm

omit [Inhabited D] [DataMeasure D] in
/-- An exclusively held page is held by a principal or by the caller. -/
theorem heldBy_of_mem_exclusivePages {s : System D} {p : Page4k} (h : p ∈ s.exclusivePages) :
    ∃ o, s.HeldBy o p := by
  rcases List.mem_append.mp h with h | h
  · obtain ⟨w, hw, hp⟩ := List.mem_flatMap.mp h
    exact ⟨w.root.owner, .inl ⟨w, hw, rfl, .inl hp⟩⟩
  · exact ⟨.host, .inr h⟩

/-- No call makes up a page: every page held after a call, by a principal (in a leaf of its
table, valid or invalidated, a node, its root or its PTE pool) or by the caller, was held by
someone before it. -/
theorem heldBy_step {s s' : System D} {c : Call} {r : Except Error Unit}
    (h : s.step c = some (s', r)) {o : PageOwnerId} {p : Page4k} (hp : s'.HeldBy o p) :
    ∃ o', s.HeldBy o' p := by
  have hex : p ∈ s'.exclusivePages → ∃ o', s.HeldBy o' p := fun hp' =>
    heldBy_of_mem_exclusivePages ((exclusivePages_step h).subset hp')
  rcases hp with ⟨w', hw', -, hp | hp⟩ | hp
  · exact hex (mem_exclusivePages hw' hp)
  · rcases PageTable.mem_of_mem_entryPages hp with hv | hinv
    · exact hex (mem_exclusivePages hw' (Principal.mem_heldPages_of_mem_ownedPages
        (Principal.mem_ownedPages_of_mem_validPages hv)))
    · obtain ⟨k, hk⟩ := List.mem_iff_getElem?.mp hw'
      obtain ⟨w, hw, hp'⟩ := invalidPages_step h hk hinv
      exact ⟨w.root.owner, .inl ⟨w, List.getElem?_mem hw, rfl, .inr hp'⟩⟩
  · exact hex (List.mem_append_right _ hp)

end System

/-- Every page held in a state reached from boot by any calls, by a principal or by the caller,
is one `HypPageAlloc` handed out. -/
theorem Reachable.heldBy_mem_boot {boot : HypMem} {allowed : System D → Call → Prop}
    {s : System D} (h : Reachable boot allowed s) :
    ∀ {o : PageOwnerId} {p : Page4k}, s.HeldBy o p → p ∈ boot.pages := by
  induction h with
  | init hb =>
    intro o p hp
    rw [← System.boot_exclusivePages hb]
    obtain ⟨_, -, rfl⟩ := System.boot_eq_some hb
    rcases hp with ⟨w, hw, -, hp | hp⟩ | hp
    · exact System.mem_exclusivePages hw hp
    · simp [List.mem_singleton.mp hw, Principal.root, PageTable.entryPages] at hp
    · exact List.mem_append_right _ hp
  | step _ _ hs ih =>
    intro o p hp
    obtain ⟨o', hp'⟩ := System.heldBy_step hs hp
    exact ih hp'

/-- In every state reached from boot by any calls, every page a principal holds (in a leaf of its
table, valid or invalidated, a node, its root or a page of its PTE pool) and every page handle
the caller holds is one that `HypPageAlloc` handed to `from_hyp_mem`; and a call from it makes up
no page: whatever is held after it was held by someone before it. -/
theorem reachable_holds_only_boot_pages {boot : HypMem} {allowed : System D → Call → Prop}
    {s : System D} (h : Reachable boot allowed s) :
    (∀ o p, s.HeldBy o p → p ∈ boot.pages) ∧
      ∀ c s' r, s.step c = some (s', r) → ∀ o p, s'.HeldBy o p → ∃ o', s.HeldBy o' p :=
  ⟨fun _ _ => h.heldBy_mem_boot, fun _ _ _ hs _ _ => System.heldBy_step hs⟩

/-- After the small machine's run the host still has the invalidated leaf of the page it gave
the guest's builder for its PTE pool, and that page, like every page held, is one of the small
machine's allocator. -/
theorem smallCalls_holds_only_boot_pages :
    ∃ s : System PageLog, Reachable smallHypMem AnyCall s ∧
      (∃ v, s.principals[0]? = some (.vm v) ∧
        ⟨⟨0x80014000, by decide, by decide⟩⟩ ∈ v.root.invalidPages) ∧
      (∀ o p, s.HeldBy o p → p ∈ smallHypMem.pages) ∧
      ∀ c s' r, s.step c = some (s', r) → ∀ o p, s'.HeldBy o p → ∃ o', s.HeldBy o' p := by
  obtain ⟨s, hs, hp⟩ := exists_reachable_of_run smallHypMem smallCalls
    (fun s : System PageLog =>
      match s.principals[0]? with
      | some (Principal.vm v) =>
        decide ((⟨⟨0x80014000, by decide, by decide⟩⟩ : Page4k) ∈ v.root.invalidPages)
      | _ => false) (by decide)
  refine ⟨s, hs, ?_, reachable_holds_only_boot_pages hs⟩
  revert hp
  split
  · rename_i v hv
    exact fun h => ⟨v, hv, of_decide_eq_true h⟩
  · nofun

end Salus
