import Salus.Handover

/-!
# Reclaiming pages

`remove_4k_pages` unmaps each page of the range, pops its owner stack, and only then compares
the popped owner with its own id (`vm_pages.rs:149-155`). Over a page it has handed on to a
child, it therefore fails with `UnownedPage` after it has already taken the child's id off the
page's stack. The child's table still maps the page, valid, with the parent's id now on top:
this is where the ownership half of isolation breaks over runs of arbitrary calls, while the
pages held exclusively stay apart.

When it succeeds, `remove_4k_pages` has given every page of the window back: each leaf of the
window, valid or invalidated, is gone from the table, its page zeroed, and its owner stack has
lost exactly one entry, the VM's own id, so the owner below is back on top. When it fails after
the range check, it has done so for every leaf before the failing one, and has unmapped and
zeroed the failing leaf's page, whose stack it has either left alone or robbed of another
owner's id.
-/

namespace Salus

variable {D : Type} [Inhabited D] [DataMeasure D]

omit [Inhabited D] [DataMeasure D] in
/-- `remove_4k_pages` over one slot whose page has another owner on top of a stack of two or
more fails with `UnownedPage` and leaves that page's stack popped. -/
theorem remove4kPages_pops_foreign (v : VmPages D) (gpa : PageAddr PageSize4k) (m : Machine)
    {e : Pte} {top : PageOwnerId} {below : List PageOwnerId}
    (ha : gpa.bits % topLevelAlign = 0) (hr : gpa.bits + 4096 ≤ 2 ^ 64)
    (he : v.root.entry gpa.bits = some e) (hst : m.phys.owners e.page.bits = top :: below)
    (hb : below ≠ []) (htop : top ≠ v.pageOwnerId) :
    (v.remove4kPages gpa 1 m).1 = .error (.unownedPage e.page.addr) ∧
      (v.remove4kPages gpa 1 m).2.2.phys.owners e.page.bits = below := by
  obtain ⟨b, bs, rfl⟩ := List.exists_cons_of_ne_nil hb
  have hrange : PageTable.unmapRange gpa 1 = some [gpa.bits] := by
    simp [PageTable.unmapRange, @PageTable.invalidateRange_of_aligned gpa 1 ha (by omega),
      PageTable.slots, List.range_succ]
  simp only [Page.bits] at hst ⊢
  simp only [VmPages.pageOwnerId] at htop
  simp [VmPages.remove4kPages, hrange, VmPages.remove4kPagesLoop, PageTable.unmapSlot, he,
    PhysPages.popOwner, hst, htop, Except.map]

/-- The small machine after its run: the host has handed its page at `0x8001_C000` to its
guest's builder, which maps it valid at GPA 0, while the host keeps the invalidated leaf. The
page's owner stack holds the guest's, the host's and the hypervisor's ids. -/
theorem smallCalls_donated_page :
    ∃ s : System PageLog, Reachable smallHypMem AnyCall s ∧ ∃ v b,
      s.principals[0]? = some (.vm v) ∧ s.principals[1]? = some (.guestBuilder b) ∧
      v.pageOwnerId = ⟨1⟩ ∧
      v.root.entry 0x8001C000 = some ⟨⟨⟨0x8001C000, by decide, by decide⟩⟩, false⟩ ∧
      b.root.owner = ⟨2⟩ ∧ b.root.entry 0 = some ⟨⟨⟨0x8001C000, by decide, by decide⟩⟩, true⟩ ∧
      s.machine.phys.owners 0x8001C000 = [⟨2⟩, ⟨1⟩, ⟨0⟩] := by
  obtain ⟨s, hs, hp⟩ := exists_reachable_of_run smallHypMem smallCalls
    (fun s : System PageLog =>
      match s.principals[0]?, s.principals[1]? with
      | some (Principal.vm v), some (Principal.guestBuilder b) =>
        v.pageOwnerId == ⟨1⟩ &&
          v.root.entry 0x8001C000 == some ⟨⟨⟨0x8001C000, by decide, by decide⟩⟩, false⟩ &&
          b.root.owner == ⟨2⟩ &&
          b.root.entry 0 == some ⟨⟨⟨0x8001C000, by decide, by decide⟩⟩, true⟩ &&
          s.machine.phys.owners 0x8001C000 == [⟨2⟩, ⟨1⟩, ⟨0⟩]
      | _, _ => false) (by decide)
  refine ⟨s, hs, ?_⟩
  revert hp
  split
  · rename_i v b hv hb
    simp only [Bool.and_eq_true, beq_iff_eq]
    exact fun ⟨⟨⟨⟨hid, he⟩, hbo⟩, hbe⟩, hst⟩ => ⟨v, b, hv, hb, hid, he, hbo, hbe, hst⟩
  · nofun

/-- In the small machine, the host has handed the page at `0x8001_C000` to its guest. Its
`remove_4k_pages` over that slot fails with `UnownedPage`, and the page's owner stack has lost
the guest's id. -/
theorem remove4kPages_pops_donated_page :
    ∃ s : System PageLog, Reachable smallHypMem AnyCall s ∧ ∃ v,
      s.principals[0]? = some (.vm v) ∧
      s.machine.phys.owners 0x8001C000 = [⟨2⟩, ⟨1⟩, ⟨0⟩] ∧
      (v.remove4kPages ⟨0x8001C000, by decide, by decide⟩ 1 s.machine).1 =
        .error (.unownedPage ⟨0x8001C000, by decide, by decide⟩) ∧
      (v.remove4kPages ⟨0x8001C000, by decide, by decide⟩ 1 s.machine).2.2.phys.owners
        0x8001C000 = [⟨1⟩, ⟨0⟩] := by
  obtain ⟨s, hs, v, -, hv, -, hid, he, -, -, hst⟩ := smallCalls_donated_page
  exact ⟨s, hs, v, hv, hst, remove4kPages_pops_foreign v ⟨0x8001C000, by decide, by decide⟩
    s.machine (by decide) (by decide) he hst (by simp) (by rw [hid]; decide)⟩

/-- Every state reached by any calls holds its pages apart, but its owner stacks need not follow
its tables. In the small machine, the host's `remove_4k_pages` over the page it handed to its
guest's builder fails with `UnownedPage` once it has popped the guest's id: the builder, with id
2, still maps the page valid at GPA 0 while the host's id is on top of the page's stack. The
host's root, which `from_hyp_mem` builds from the hypervisor's pages, has the hypervisor on top
from `create_host` on. -/
theorem reachable_exclusive_not_owned :
    (∀ (boot : HypMem) (s : System D), Reachable boot AnyCall s → s.exclusivePages.Nodup) ∧
    (∃ s s' : System PageLog, Reachable smallHypMem AnyCall s ∧
      s.step (.remove4kPages 0 ⟨0x8001C000, by decide, by decide⟩ 1) =
        some (s', .error (.unownedPage ⟨0x8001C000, by decide, by decide⟩)) ∧
      ∃ b, s'.principals[1]? = some (.guestBuilder b) ∧ b.root.owner = ⟨2⟩ ∧
        b.root.entry 0 = some ⟨⟨⟨0x8001C000, by decide, by decide⟩⟩, true⟩ ∧
        s'.machine.phys.owner 0x8001C000 = some ⟨1⟩) ∧
    ∃ s : System PageLog, Reachable smallHypMem AnyCall s ∧ ∃ v,
      s.principals[0]? = some (.vm v) ∧ v.root.owner = .host ∧
      ∃ p ∈ v.root.rootPages, s.machine.phys.owner p.bits = some .hypervisor := by
  refine ⟨fun boot _ h => nodup_of_subperm h.exclusivePages_subperm boot.nodup, ?_, ?_⟩
  · obtain ⟨s, hs, v, b, hv, hb, hid, he, hbo, hbe, hst⟩ := smallCalls_donated_page
    have hpop := remove4kPages_pops_foreign v ⟨0x8001C000, by decide, by decide⟩ s.machine
      (by decide) (by decide) he hst (by simp) (by rw [hid]; decide)
    rcases hrem : v.remove4kPages ⟨0x8001C000, by decide, by decide⟩ 1 s.machine with
      ⟨r', v', m'⟩
    rw [hrem] at hpop
    obtain ⟨rfl, hown⟩ := hpop
    refine ⟨s, ⟨m', s.principals.set 0 (.vm v'), s.loose⟩, hs,
      by simp only [System.step, hv, hrem]; rfl, b, ?_, hbo, hbe, congrArg List.head? hown⟩
    rw [List.getElem?_set_ne (by decide)]
    exact hb
  · obtain ⟨s, hs, hp⟩ := exists_reachable_of_run smallHypMem [.createHost 0]
      (fun s : System PageLog =>
        match s.principals[0]? with
        | some (Principal.vm v) => v.root.owner == .host &&
            v.root.rootPages.any fun p => s.machine.phys.owner p.bits == some .hypervisor
        | _ => false) (by decide)
    refine ⟨s, hs, ?_⟩
    revert hp
    split
    · rename_i v hv
      simp only [Bool.and_eq_true, beq_iff_eq, List.any_eq_true]
      exact fun h => ⟨v, hv, h.1, h.2⟩
    · nofun

/-! ## A successful `remove_4k_pages` -/

namespace PageTable

theorem entry_unmap (t : PageTable) (g g' : Nat) :
    (t.unmap g).entry g' = if g' = g then none else t.entry g' := by
  obtain ⟨root, owner, nodes, entries⟩ := t
  simp only [entry, unmap]
  induction entries with
  | nil => simp
  | cons e es ih =>
    obtain ⟨k, x⟩ := e
    by_cases hg : g' = g
    · subst hg
      by_cases hk : k = g'
      · subst hk
        simpa [List.filter_cons] using ih
      · simpa [List.filter_cons, hk, List.lookup_cons, beq_eq_false_iff_ne.mpr (Ne.symm hk)]
          using ih
    · rw [if_neg hg] at ih ⊢
      by_cases hk : k = g
      · subst hk
        simpa [List.filter_cons, List.lookup_cons, beq_eq_false_iff_ne.mpr hg] using ih
      · simp only [ne_eq, decide_not] at ih
        simp [List.filter_cons, hk, List.lookup_cons, ih]

theorem unmapSlot_none_entry {t t' : PageTable} {g : Nat} (h : t.unmapSlot g = (none, t')) :
    t.entry g = none := by
  unfold unmapSlot at h
  split at h
  · cases h
  · assumption

/-- How many of the slots hold a leaf, valid or invalidated, of the page at `a`. -/
def leafCount (t : PageTable) (slots : List Nat) (a : Nat) : Nat :=
  slots.countP fun g => (t.entry g).map (·.page.bits) == some a

/-- The pages of the leaves, valid or invalidated, at `slots`, in the order of the slots. -/
def leavesIn (t : PageTable) (slots : List Nat) : List Page4k :=
  slots.filterMap fun g => (t.entry g).map (·.page)

theorem leafCount_eq (t : PageTable) (a : Nat) : ∀ slots : List Nat,
    t.leafCount slots a = (t.leavesIn slots).countP fun p => p.bits == a
  | [] => rfl
  | g :: rest => by
    have ih := leafCount_eq t a rest
    unfold leafCount leavesIn at ih ⊢
    rcases he : t.entry g with _ | e <;> simp [List.countP_cons, List.filterMap_cons, he, ih]

theorem leavesIn_unmap (t : PageTable) {g : Nat} {slots : List Nat} (h : g ∉ slots) :
    (t.unmap g).leavesIn slots = t.leavesIn slots :=
  List.filterMap_congr fun g' hg' => by rw [entry_unmap, if_neg (ne_of_mem_of_not_mem hg' h)]

/-- `t'` is `t` without its leaves at `slots`. -/
def Unmaps (t : PageTable) (slots : List Nat) (t' : PageTable) : Prop :=
  ∀ g, t'.entry g = if g ∈ slots then none else t.entry g

theorem Unmaps.trans {t t₁ t₂ : PageTable} {l₁ l₂ : List Nat} (h₁ : t.Unmaps l₁ t₁)
    (h₂ : t₁.Unmaps l₂ t₂) : t.Unmaps (l₁ ++ l₂) t₂ := fun g => by
  rw [h₂, h₁]
  by_cases g₁ : g ∈ l₁ <;> by_cases g₂ : g ∈ l₂ <;> simp [g₁, g₂]

/-- The unmap iterator at one slot, leaf or not. -/
theorem unmapSlot_unmaps {t t' : PageTable} {g : Nat} {op : Option Page4k}
    (h : t.unmapSlot g = (op, t')) :
    t.Unmaps [g] t' ∧ t.leavesIn [g] = op.toList ∧
      ∀ rest, g ∉ rest → t.leavesIn (g :: rest) = op.toList ++ t'.leavesIn rest := by
  cases op with
  | none =>
    have he := unmapSlot_none_entry h
    obtain rfl := unmapSlot_eq_none h
    refine ⟨fun g' => ?_, by simp [leavesIn, he], fun _ _ => by simp [leavesIn, he]⟩
    simp only [List.mem_singleton]
    split
    · subst g'
      exact he
    · rfl
  | some p =>
    obtain ⟨e, he, rfl, rfl⟩ := unmapSlot_eq_some h
    refine ⟨fun g' => by simp only [entry_unmap, List.mem_singleton], by simp [leavesIn, he],
      fun rest hg => ?_⟩
    rw [leavesIn_unmap t hg]
    simp [leavesIn, he]

end PageTable

namespace PhysPages

/-- A page's stack pushed `top` once over what `pop_owner` left. -/
theorem pushed_popOwner {pp pp' : PhysPages} {p : Page4k} {top : PageOwnerId}
    (h : pp.popOwner p.addr = .ok (top, pp')) : pp'.Pushed top [p] pp := by
  obtain ⟨below, -, hst, rfl⟩ := popOwner_eq_ok h
  refine ⟨fun a => ?_, rfl, rfl⟩
  by_cases ha : a = p.bits
  · subst ha
    simpa [Page.bits] using hst
  · simp [Page.bits] at ha ⊢
    simp [ha, Ne.symm ha]

theorem Pushed.perm {pp pp' : PhysPages} {id : PageOwnerId} {l l' : List Page4k}
    (h : pp.Pushed id l pp') (hl : l.Perm l') : pp.Pushed id l' pp' :=
  ⟨fun a => by rw [h.1, hl.countP_eq], h.2⟩

/-- The stack of a page of `l` has `id` pushed on it at least once. -/
theorem Pushed.owners_of_mem {pp pp' : PhysPages} {id : PageOwnerId} {l : List Page4k}
    {p : Page4k} (h : pp.Pushed id l pp') (hp : p ∈ l) :
    ∃ n, pp'.owners p.bits = id :: (List.replicate n id ++ pp.owners p.bits) := by
  have hpos : 0 < l.countP fun q => q.bits == p.bits :=
    List.countP_pos_iff.mpr ⟨p, hp, beq_self_eq_true _⟩
  obtain ⟨n, hn⟩ := Nat.exists_eq_succ_of_ne_zero hpos.ne'
  exact ⟨n, by rw [h.1, hn, List.replicate_succ, List.cons_append]⟩

end PhysPages

omit [Inhabited D] [DataMeasure D] in
/-- When the loop of `remove_4k_pages` returns `Ok`, it has removed every leaf at its slots,
taken the VM's id off the owner stack of each leaf's page, once per leaf, and zeroed those
pages. -/
theorem remove4kPagesLoop_ok {ownerId : PageOwnerId} : ∀ (slots : List Nat) {t t' : PageTable}
    {m m' : Machine}, slots.Nodup →
    VmPages.remove4kPagesLoop ownerId slots t m = (.ok (), t', m') →
    t.Unmaps slots t' ∧ m'.phys.Pushed ownerId (t.leavesIn slots) m.phys ∧
      m.mem.Cleaned (t.leavesIn slots) m'.mem
  | [], _, _, _, _, _, h => by
    cases h
    exact ⟨fun _ => by simp, .refl _ _, .refl _⟩
  | g :: rest, t, t', m, m', hnd, h => by
    obtain ⟨hg, hrest⟩ := List.nodup_cons.mp hnd
    simp only [VmPages.remove4kPagesLoop] at h
    split at h
    · rename_i t₁ heq
      obtain ⟨hu, -, hl⟩ := PageTable.unmapSlot_unmaps heq
      obtain ⟨hu', hq, hc⟩ := remove4kPagesLoop_ok rest hrest h
      rw [hl rest hg]
      exact ⟨hu.trans hu', hq, hc⟩
    · rename_i p t₁ heq
      obtain ⟨hu, -, hl⟩ := PageTable.unmapSlot_unmaps heq
      rw [hl rest hg]
      split at h
      · cases h
      rename_i owner phys hpop
      split at h
      · cases h
      rename_i howner
      rw [not_not] at howner
      subst howner
      obtain ⟨hu', hq, hc⟩ := remove4kPagesLoop_ok rest hrest h
      exact ⟨hu.trans hu', (hq.trans (PhysPages.pushed_popOwner hpop)).perm
        (List.perm_append_singleton _ _), (m.mem.cleaned_clean p).trans hc⟩

omit [Inhabited D] [DataMeasure D] in
/-- What a successful `remove_4k_pages` does, in the terms of its loop. -/
theorem remove4kPages_eq_ok {v v' : VmPages D} {fromAddr : PageAddr PageSize4k} {count k : Nat}
    {m m' : Machine} (h : v.remove4kPages fromAddr count m = (.ok k, v', m')) :
    k = count ∧ v'.measurement = v.measurement ∧
      v.root.Unmaps (PageTable.slots fromAddr.bits count) v'.root ∧
      m'.phys.Pushed v.pageOwnerId (v.root.leavesIn (PageTable.slots fromAddr.bits count)) m.phys ∧
      m.mem.Cleaned (v.root.leavesIn (PageTable.slots fromAddr.bits count)) m'.mem := by
  unfold VmPages.remove4kPages at h
  split at h
  · cases h
  rename_i slots hr
  obtain rfl := PageTable.eq_slots_of_invalidateRange hr
  dsimp only at h
  rcases hl : VmPages.remove4kPagesLoop v.root.pageOwnerId (PageTable.slots fromAddr.bits count)
    v.root m with ⟨r, t, m₁⟩
  rw [hl] at h
  rcases r with e | ⟨⟩ <;> cases h
  obtain ⟨hu, hq, hc⟩ := remove4kPagesLoop_ok _ (PageTable.slots_nodup _ _) hl
  exact ⟨rfl, rfl, hu, hq, hc⟩

omit [Inhabited D] [DataMeasure D] in
/-- When `remove_4k_pages` returns `Ok(k)`, `k` is `count`; every leaf of the window, valid or
invalidated, is gone from the VM's table and the others are kept; the owner stack of each
page lost exactly the VM's id once per leaf of the window that held it, so the owner below is
back on top; and exactly those pages are zeroed. -/
theorem remove4kPages_returns_pages {v v' : VmPages D} {fromAddr : PageAddr PageSize4k}
    {count k : Nat} {m m' : Machine} (h : v.remove4kPages fromAddr count m = (.ok k, v', m')) :
    k = count ∧ v'.measurement = v.measurement ∧
      (∀ g, v'.root.entry g =
        if g ∈ PageTable.slots fromAddr.bits count then none else v.root.entry g) ∧
      (∀ a, m.phys.owners a = List.replicate
        (v.root.leafCount (PageTable.slots fromAddr.bits count) a) v.pageOwnerId ++
          m'.phys.owners a) ∧
      ∀ a o, m'.mem a o =
        if 0 < v.root.leafCount (PageTable.slots fromAddr.bits count) a then 0 else m.mem a o := by
  obtain ⟨rfl, hmeas, hu, hq, hc⟩ := remove4kPages_eq_ok h
  exact ⟨rfl, hmeas, hu, fun a => by rw [PageTable.leafCount_eq, hq.1],
    fun a o => by rw [PageTable.leafCount_eq, hc]⟩

/-- In the small machine, once the guest's builder has become its `VmPages`, the guest's
`remove_4k_pages` over its GPA `0` succeeds and gives the host page at `0x8001_C000` back to the
host, whose id is on top again. -/
theorem remove4kPages_returns_pages_small :
    ∃ s : System PageLog, Reachable smallHypMem AnyCall s ∧ ∃ v v' m',
      s.principals[1]? = some (.vm v) ∧
      v.remove4kPages ⟨0, by decide, by decide⟩ 1 s.machine = (.ok 1, v', m') ∧
      m'.phys.owners 0x8001C000 = [⟨1⟩, ⟨0⟩] ∧
      1 = 1 ∧ v'.measurement = v.measurement ∧
      (∀ g, v'.root.entry g = if g ∈ PageTable.slots 0 1 then none else v.root.entry g) ∧
      (∀ a, s.machine.phys.owners a =
        List.replicate (v.root.leafCount (PageTable.slots 0 1) a) v.pageOwnerId ++
          m'.phys.owners a) ∧
      ∀ a o, m'.mem a o =
        if 0 < v.root.leafCount (PageTable.slots 0 1) a then 0 else s.machine.mem a o := by
  obtain ⟨s, hs, hp⟩ := exists_reachable_of_run smallHypMem (smallCalls ++ [.createPages 1])
    (fun s : System PageLog =>
      match s.principals[1]? with
      | some (Principal.vm v) =>
        match v.remove4kPages ⟨0, by decide, by decide⟩ 1 s.machine with
        | (.ok 1, _, m') => m'.phys.owners 0x8001C000 == [⟨1⟩, ⟨0⟩]
        | _ => false
      | _ => false) (by decide)
  refine ⟨s, hs, ?_⟩
  revert hp
  split
  · rename_i v hv
    split
    · rename_i v' m' hr
      intro hown
      exact ⟨v, v', m', hv, hr, by simpa using hown, remove4kPages_returns_pages hr⟩
    · nofun
  · nofun

/-! ## A failed `remove_4k_pages` -/

/-- A slot that is not in `pre ++ g' :: rest` is in neither `pre` nor `pre ++ [g']`. -/
theorem not_mem_prefixes {g g' : Nat} {pre rest : List Nat} (h : g ∉ pre ++ g' :: rest) :
    g ∉ pre ∧ g ∉ pre ++ [g'] := by
  simp only [List.mem_append, List.mem_cons, List.not_mem_nil, or_false, not_or] at h ⊢
  exact ⟨h.1, h.1, h.2.1⟩

omit [Inhabited D] [DataMeasure D] in
/-- When the loop of `remove_4k_pages` fails, it has failed with `UnownedPage` at the page `p`
of the leaf at some slot `g`. It has done for every leaf before `g` what a successful run does;
it has unmapped `g` and zeroed `p`; and it has either left `p`'s stack alone, `pop_owner` having
refused a stack of one owner or none, or taken another owner's id off it. -/
theorem remove4kPagesLoop_error {ownerId : PageOwnerId} : ∀ (slots : List Nat)
    {t t' : PageTable} {m m' : Machine} {e : Error}, slots.Nodup →
    VmPages.remove4kPagesLoop ownerId slots t m = (.error e, t', m') →
    ∃ pre g rest p, slots = pre ++ g :: rest ∧ (t.entry g).map (·.page) = some p ∧
      e = .unownedPage p.addr ∧ t.Unmaps (pre ++ [g]) t' ∧
      m.mem.Cleaned (t.leavesIn (pre ++ [g])) m'.mem ∧
      ∃ phys, phys.Pushed ownerId (t.leavesIn pre) m.phys ∧
        (m'.phys = phys ∧ (phys.owners p.bits).length ≤ 1 ∨
          ∃ top, top ≠ ownerId ∧ phys.popOwner p.addr = .ok (top, m'.phys))
  | [], _, _, _, _, _, _, h => by cases h
  | g :: rest, t, t', m, m', e, hnd, h => by
    obtain ⟨hg, hrest⟩ := List.nodup_cons.mp hnd
    simp only [VmPages.remove4kPagesLoop] at h
    split at h
    · rename_i t₁ heq
      obtain ⟨hu, -, hl⟩ := PageTable.unmapSlot_unmaps heq
      obtain rfl := PageTable.unmapSlot_eq_none heq
      obtain ⟨pre, g', rest', p, rfl, hp, rfl, hu', hc, phys, hq, hpop⟩ :=
        remove4kPagesLoop_error rest hrest h
      obtain ⟨hpre, hpre'⟩ := not_mem_prefixes hg
      refine ⟨g :: pre, g', rest', p, rfl, hp, rfl, hu.trans hu', ?_, phys, ?_, hpop⟩
      · rw [List.cons_append, hl _ hpre']
        exact hc
      · rw [hl _ hpre]
        exact hq
    · rename_i p t₁ heq
      obtain ⟨hu, hone, hl⟩ := PageTable.unmapSlot_unmaps heq
      have hp : (t.entry g).map (·.page) = some p := by
        obtain ⟨e, he, rfl, -⟩ := PageTable.unmapSlot_eq_some heq
        simp [he]
      have hc₁ : m.mem.Cleaned (t.leavesIn [g]) (m.mem.clean p) := hone ▸ m.mem.cleaned_clean p
      split at h
      · rename_i hpop
        cases h
        exact ⟨[], g, rest, p, rfl, hp, rfl, hu, hc₁, m.phys, .refl _ _,
          .inl ⟨rfl, PhysPages.popOwner_eq_error hpop⟩⟩
      rename_i owner phys hpop
      split at h
      · rename_i howner
        cases h
        exact ⟨[], g, rest, p, rfl, hp, rfl, hu, hc₁, m.phys, .refl _ _, .inr ⟨owner, howner, hpop⟩⟩
      rename_i howner
      rw [not_not] at howner
      subst howner
      obtain ⟨pre, g', rest', p', rfl, hp', rfl, hu', hc, phys', hq, hpop'⟩ :=
        remove4kPagesLoop_error rest hrest h
      obtain ⟨hpre, hpre'⟩ := not_mem_prefixes hg
      have hg' : g' ∉ [g] := fun h' => hg (by simp [List.mem_singleton.mp h'])
      refine ⟨g :: pre, g', rest', p', rfl, ?_, rfl, hu.trans hu', ?_, phys', ?_, hpop'⟩
      · rwa [hu, if_neg hg'] at hp'
      · rw [List.cons_append, hl _ hpre']
        exact (m.mem.cleaned_clean p).trans hc
      · rw [hl _ hpre]
        exact (hq.trans (PhysPages.pushed_popOwner hpop)).perm (List.perm_append_singleton _ _)

omit [Inhabited D] [DataMeasure D] in
/-- When `remove_4k_pages` fails, either its range was refused and nothing has changed, or it
has failed with `UnownedPage` at the page `p` of the leaf at a slot `g` of the window: every
leaf of the window before `g` and `g` itself are gone from the VM's table and every other leaf
is kept, those leaves' pages are zeroed, the VM's id is off the stack of each page of a leaf
before `g`, once per leaf, and `p`'s stack is either left alone, holding at most one owner, or
has lost another owner's id from its top. -/
theorem remove4kPages_error_extent {v v' : VmPages D} {fromAddr : PageAddr PageSize4k}
    {count : Nat} {m m' : Machine} {e : Error}
    (h : v.remove4kPages fromAddr count m = (.error e, v', m')) :
    e = .invalidRange ∧ v' = v ∧ m' = m ∨
      ∃ pre g rest p, PageTable.slots fromAddr.bits count = pre ++ g :: rest ∧
        (v.root.entry g).map (·.page) = some p ∧ e = .unownedPage p.addr ∧
        v'.measurement = v.measurement ∧ v.root.Unmaps (pre ++ [g]) v'.root ∧
        m.mem.Cleaned (v.root.leavesIn (pre ++ [g])) m'.mem ∧
        ∃ phys, phys.Pushed v.pageOwnerId (v.root.leavesIn pre) m.phys ∧
          (m'.phys = phys ∧ (phys.owners p.bits).length ≤ 1 ∨
            ∃ top, top ≠ v.pageOwnerId ∧ phys.popOwner p.addr = .ok (top, m'.phys)) := by
  unfold VmPages.remove4kPages at h
  split at h
  · cases h
    exact .inl ⟨rfl, rfl, rfl⟩
  rename_i slots hr
  obtain rfl := PageTable.eq_slots_of_invalidateRange hr
  dsimp only at h
  rcases hl : VmPages.remove4kPagesLoop v.root.pageOwnerId (PageTable.slots fromAddr.bits count)
    v.root m with ⟨r, t, m₁⟩
  rw [hl] at h
  rcases r with e' | ⟨⟩ <;> cases h
  obtain ⟨pre, g, rest, p, hs, hp, rfl, hu, hc, phys, hq, hpop⟩ :=
    remove4kPagesLoop_error _ (PageTable.slots_nodup _ _) hl
  exact .inr ⟨pre, g, rest, p, hs, hp, rfl, rfl, hu, hc, phys, hq, hpop⟩

/-- In the small machine, the host's `remove_4k_pages` over the page it has handed to its guest
fails there, and the page's stack has lost the guest's id. -/
theorem remove4kPages_error_extent_small :
    ∃ s : System PageLog, Reachable smallHypMem AnyCall s ∧ ∃ v e v' m',
      s.principals[0]? = some (.vm v) ∧
      v.remove4kPages ⟨0x8001C000, by decide, by decide⟩ 1 s.machine = (.error e, v', m') ∧
      (e = .invalidRange ∧ v' = v ∧ m' = s.machine ∨
        ∃ pre g rest p, PageTable.slots 0x8001C000 1 = pre ++ g :: rest ∧
          (v.root.entry g).map (·.page) = some p ∧ e = .unownedPage p.addr ∧
          v'.measurement = v.measurement ∧ v.root.Unmaps (pre ++ [g]) v'.root ∧
          s.machine.mem.Cleaned (v.root.leavesIn (pre ++ [g])) m'.mem ∧
          ∃ phys, phys.Pushed v.pageOwnerId (v.root.leavesIn pre) s.machine.phys ∧
            (m'.phys = phys ∧ (phys.owners p.bits).length ≤ 1 ∨
              ∃ top, top ≠ v.pageOwnerId ∧ phys.popOwner p.addr = .ok (top, m'.phys))) := by
  obtain ⟨s, hs, hp⟩ := exists_reachable_of_run smallHypMem smallCalls
    (fun s : System PageLog =>
      match s.principals[0]? with
      | some (Principal.vm v) =>
        match v.remove4kPages ⟨0x8001C000, by decide, by decide⟩ 1 s.machine with
        | (.error (.unownedPage _), _, _) => true
        | _ => false
      | _ => false) (by decide)
  refine ⟨s, hs, ?_⟩
  revert hp
  split
  · rename_i v hv
    split
    · rename_i a v' m' hr
      exact fun _ => ⟨v, _, v', m', hv, hr, remove4kPages_error_extent hr⟩
    · nofun
  · nofun

end Salus
