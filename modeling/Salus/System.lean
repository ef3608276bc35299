import Salus.VmPages
import Mathlib.Data.List.Perm.Subperm

/-!
# The system of VMs and builders

The state the operations of `vm_pages.rs` act on as a whole: the shared `Machine`, every
principal (the host's builder, the builders of guests, and the `VmPages` of running VMs), and
the page handles the caller holds, which are the host's pages from `from_hyp_mem` and the
state pages of guests. A `Call` is one public operation, naming the principals it acts on by
their position; `System.step` runs it and returns the new state and the call's result, or
`none` when the call panics or its receiver is not a principal of the right kind. A call that
takes page handles takes them out of those the caller holds. `Reachable` is every state
reached from `from_hyp_mem` by calls a predicate admits.

`VmPages::handle_page_fault` (`vm_pages.rs:165-172`) is not a `Call`: it hands the fault to the
table's `do_guest_fault`, the platform's lazy-map hook, which the repository does not define and
which may map pages into the table. `VmPages.handlePageFault` models it with the hook as a
parameter; every result over runs of the system is about the calls without it.
-/

namespace Salus

/-- A principal: the host's builder, a guest's builder, or a running VM. -/
inductive Principal (D : Type)
  | hostBuilder (b : HostRootBuilder D)
  | guestBuilder (b : GuestRootBuilder D)
  | vm (v : VmPages D)

/-- The system of principals. -/
structure System (D : Type) where
  machine : Machine
  principals : List (Principal D)
  loose : List Page4k

/-- One public operation of `vm_pages.rs` other than `handle_page_fault`, on the principals at
the given positions. -/
inductive Call
  | add4kDataPages (i : Nat) (toAddr : PageAddr PageSize4k) (pages : List Page4k)
  | add4kPages (i : Nat) (toAddr : PageAddr PageSize4k) (pages : List Page4k)
  | createHost (i : Nat)
  | createGuestRootBuilder (i : Nat) (fromAddr : PageAddr PageSize4k)
  | addPtePagesBuilder (i : Nat) (fromAddr : PageAddr PageSize4k) (count j : Nat)
  | add4kPagesBuilder (i : Nat) (fromAddr : PageAddr PageSize4k) (count j : Nat)
      (toAddr : PageAddr PageSize4k) (measurePreserve : Bool)
  | remove4kPages (i : Nat) (fromAddr : PageAddr PageSize4k) (count : Nat)
  | addPtePage (j : Nat) (page : Page4k)
  | addDataPage (j : Nat) (gpa : Nat) (page : Page4k)
  | addZeroPage (j : Nat) (gpa : Nat) (page : Page4k)
  | createPages (j : Nat)

variable {D : Type} [Inhabited D] [DataMeasure D]

namespace System

/-- The state `from_hyp_mem` starts from. -/
def boot (m : HypMem) : Option (System D) :=
  (HostRootBuilder.fromHypMem m).map fun (hostPages, b, machine) =>
    ⟨machine, [.hostBuilder b], hostPages⟩

omit [DataMeasure D] in
/-- `from_hyp_mem` builds the host's table over the four root pages, with no leaf, keeps the PTE
pages in its reservoir and hands the host's pages to the caller. -/
theorem boot_eq_some {m : HypMem} {s : System D} (h : boot m = some s) :
    ∃ rootSeq : SequentialPages PageSize4k, rootSeq.intoIter.drain = m.rootPages ∧
      s = ⟨⟨m.physPages, m.contents⟩,
        [.hostBuilder ⟨⟨rootSeq, .host, [], []⟩, m.ptePages, default⟩], m.hostPages⟩ := by
  simp only [boot, HostRootBuilder.fromHypMem, Option.bind_eq_bind, Option.map_eq_some',
    Option.bind_eq_some] at h
  obtain ⟨_, ⟨rootSeq, hfp, root, hnew, h⟩, rfl⟩ := h
  cases h
  have hroot : root = ⟨rootSeq, .host, [], []⟩ := PageTable.new_eq_ok (by
    revert hnew
    cases PageTable.new rootSeq .host <;> simp [Except.toOption])
  subst hroot
  refine ⟨rootSeq, ?_, rfl⟩
  revert hfp
  rcases hf : fromPages m.rootPages with _ | seq <;> simp only [Except.toOption, reduceCtorEq,
    Option.some.injEq, false_implies]
  rintro rfl
  exact (fromPages_ok hf).2.1

/-- A direct call on the guest builder at `j` that consumes a page the caller holds. -/
def builderCall (s : System D) (j : Nat) (page : Page4k)
    (f : GuestRootBuilder D → Except Error Unit × GuestRootBuilder D) :
    Option (System D × Except Error Unit) :=
  match s.principals[j]? with
  | some (.guestBuilder b) =>
    if page ∈ s.loose then
      let (r, b) := f b
      some ({ s with principals := s.principals.set j (.guestBuilder b),
                     loose := s.loose.erase page }, r)
    else none
  | _ => none

/-- A call on the host builder at `i` that consumes pages the caller holds. -/
def hostCall (s : System D) (i : Nat) (pages : List Page4k)
    (f : HostRootBuilder D → PhysPages → Option (HostRootBuilder D × PhysPages)) :
    Option (System D × Except Error Unit) :=
  match s.principals[i]? with
  | some (.hostBuilder b) =>
    if pages.Subperm s.loose then
      (f b s.machine.phys).map fun (b, phys) =>
        (⟨{ s.machine with phys }, s.principals.set i (.hostBuilder b), s.loose.diff pages⟩, .ok ())
    else none
  | _ => none

/-- Runs one call. -/
def step (s : System D) : Call → Option (System D × Except Error Unit)
  | .add4kDataPages i toAddr pages =>
    s.hostCall i pages fun b => b.add4kDataPages toAddr pages
  | .add4kPages i toAddr pages =>
    s.hostCall i pages fun b => b.add4kPages toAddr pages
  | .createHost i =>
    match s.principals[i]? with
    | some (.hostBuilder b) =>
      some ({ s with principals := s.principals.set i (.vm b.createHost.intoInner) }, .ok ())
    | _ => none
  | .createGuestRootBuilder i fromAddr =>
    match s.principals[i]? with
    | some (.vm v) => (v.createGuestRootBuilder fromAddr s.machine).map fun (r, v, m) =>
      let principals := s.principals.set i (.vm v)
      match r with
      | .ok (b, statePage) =>
        (⟨m, principals ++ [.guestBuilder b], statePage :: s.loose⟩, .ok ())
      | .error e => (⟨m, principals, s.loose⟩, .error e)
    | _ => none
  | .addPtePagesBuilder i fromAddr count j =>
    match s.principals[i]?, s.principals[j]? with
    | some (.vm v), some (.guestBuilder b) =>
      let (r, v, b, m) := v.addPtePagesBuilder fromAddr count b s.machine
      some (⟨m, (s.principals.set i (.vm v)).set j (.guestBuilder b), s.loose⟩, r)
    | _, _ => none
  | .add4kPagesBuilder i fromAddr count j toAddr measurePreserve =>
    match s.principals[i]?, s.principals[j]? with
    | some (.vm v), some (.guestBuilder b) =>
      let (r, v, b, m) := v.add4kPagesBuilder fromAddr count b toAddr measurePreserve s.machine
      some (⟨m, (s.principals.set i (.vm v)).set j (.guestBuilder b), s.loose⟩,
        r.map fun _ => ())
    | _, _ => none
  | .remove4kPages i fromAddr count =>
    match s.principals[i]? with
    | some (.vm v) =>
      let (r, v, m) := v.remove4kPages fromAddr count s.machine
      some (⟨m, s.principals.set i (.vm v), s.loose⟩, r.map fun _ => ())
    | _ => none
  | .addPtePage j page => s.builderCall j page fun b => b.addPtePage page
  | .addDataPage j gpa page => s.builderCall j page fun b => b.addDataPage gpa page
  | .addZeroPage j gpa page => s.builderCall j page fun b => b.addZeroPage gpa page
  | .createPages j =>
    match s.principals[j]? with
    | some (.guestBuilder b) =>
      some ({ s with principals := s.principals.set j (.vm b.createPages) }, .ok ())
    | _ => none

/-! ### What one call does -/

section Inversion

variable {m : Machine} {ps : List (Principal D)} {L : List Page4k} {s' : System D}
  {r : Except Error Unit} {i j : Nat}

omit [Inhabited D] [DataMeasure D] in
theorem hostCall_eq_some {pages : List Page4k}
    {f : HostRootBuilder D → PhysPages → Option (HostRootBuilder D × PhysPages)}
    (h : (System.mk m ps L).hostCall i pages f = some (s', r)) :
    ∃ b b' phys', ps[i]? = some (.hostBuilder b) ∧ pages.Subperm L ∧
      f b m.phys = some (b', phys') ∧
      s' = ⟨{ m with phys := phys' }, ps.set i (.hostBuilder b'), L.diff pages⟩ := by
  unfold hostCall at h
  split at h
  · rename_i b hb
    split at h
    · obtain ⟨⟨b', phys'⟩, hf, h⟩ := Option.map_eq_some'.mp h
      cases h
      exact ⟨b, b', phys', hb, ‹_›, hf, rfl⟩
    · cases h
  · cases h

omit [Inhabited D] [DataMeasure D] in
theorem builderCall_eq_some {page : Page4k}
    {f : GuestRootBuilder D → Except Error Unit × GuestRootBuilder D}
    (h : (System.mk m ps L).builderCall j page f = some (s', r)) :
    ∃ b, ps[j]? = some (.guestBuilder b) ∧ page ∈ L ∧
      s' = ⟨m, ps.set j (.guestBuilder (f b).2), L.erase page⟩ := by
  unfold builderCall at h
  split at h
  · rename_i b hb
    split at h
    · cases h
      exact ⟨b, hb, ‹_›, rfl⟩
    · cases h
  · cases h

theorem step_createHost (h : (System.mk m ps L).step (.createHost i) = some (s', r)) :
    ∃ b, ps[i]? = some (.hostBuilder b) ∧ s' = ⟨m, ps.set i (.vm b.createHost.intoInner), L⟩ := by
  simp only [step] at h
  split at h
  · cases h
    exact ⟨_, ‹_›, rfl⟩
  · cases h

theorem step_createPages (h : (System.mk m ps L).step (.createPages j) = some (s', r)) :
    ∃ b, ps[j]? = some (.guestBuilder b) ∧ s' = ⟨m, ps.set j (.vm b.createPages), L⟩ := by
  simp only [step] at h
  split at h
  · cases h
    exact ⟨_, ‹_›, rfl⟩
  · cases h

theorem step_createGuestRootBuilder {fromAddr : PageAddr PageSize4k}
    (h : (System.mk m ps L).step (.createGuestRootBuilder i fromAddr) = some (s', r)) :
    ∃ v r' v' m', ps[i]? = some (.vm v) ∧
      v.createGuestRootBuilder fromAddr m = some (r', v', m') ∧
      match r' with
      | .ok (b, sp) => s' = ⟨m', ps.set i (.vm v') ++ [.guestBuilder b], sp :: L⟩
      | .error _ => s' = ⟨m', ps.set i (.vm v'), L⟩ := by
  simp only [step] at h
  split at h
  · rename_i v hv
    obtain ⟨⟨r', v', m'⟩, hc, h⟩ := Option.map_eq_some'.mp h
    refine ⟨v, r', v', m', hv, hc, ?_⟩
    rcases r' with _ | ⟨b, sp⟩ <;> cases h <;> rfl
  · cases h

theorem step_addPtePagesBuilder {fromAddr : PageAddr PageSize4k} {count : Nat}
    (h : (System.mk m ps L).step (.addPtePagesBuilder i fromAddr count j) = some (s', r)) :
    ∃ v b v' b' m', ps[i]? = some (.vm v) ∧ ps[j]? = some (.guestBuilder b) ∧
      v.addPtePagesBuilder fromAddr count b m = (r, v', b', m') ∧
      s' = ⟨m', (ps.set i (.vm v')).set j (.guestBuilder b'), L⟩ := by
  simp only [step] at h
  split at h
  · rename_i v b hv hb
    rcases hc : v.addPtePagesBuilder fromAddr count b m with ⟨r', v', b', m'⟩
    rw [hc] at h
    cases h
    exact ⟨v, b, v', b', m', hv, hb, hc, rfl⟩
  · cases h

theorem step_add4kPagesBuilder {fromAddr toAddr : PageAddr PageSize4k} {count : Nat}
    {measurePreserve : Bool}
    (h : (System.mk m ps L).step (.add4kPagesBuilder i fromAddr count j toAddr measurePreserve) =
      some (s', r)) :
    ∃ v b r' v' b' m', ps[i]? = some (.vm v) ∧ ps[j]? = some (.guestBuilder b) ∧
      v.add4kPagesBuilder fromAddr count b toAddr measurePreserve m = (r', v', b', m') ∧
      s' = ⟨m', (ps.set i (.vm v')).set j (.guestBuilder b'), L⟩ := by
  simp only [step] at h
  split at h
  · rename_i v b hv hb
    rcases hc : v.add4kPagesBuilder fromAddr count b toAddr measurePreserve m with
      ⟨r', v', b', m'⟩
    rw [hc] at h
    cases h
    exact ⟨v, b, r', v', b', m', hv, hb, hc, rfl⟩
  · cases h

theorem step_remove4kPages {fromAddr : PageAddr PageSize4k} {count : Nat}
    (h : (System.mk m ps L).step (.remove4kPages i fromAddr count) = some (s', r)) :
    ∃ v r' v' m', ps[i]? = some (.vm v) ∧ v.remove4kPages fromAddr count m = (r', v', m') ∧
      s' = ⟨m', ps.set i (.vm v'), L⟩ := by
  simp only [step] at h
  split at h
  · rename_i v hv
    rcases hc : v.remove4kPages fromAddr count m with ⟨r', v', m'⟩
    rw [hc] at h
    cases h
    exact ⟨v, r', v', m', hv, hc, rfl⟩
  · cases h

end Inversion

/-- Runs calls one after another, as long as none panics. -/
def run (s : System D) : List Call → Option (System D)
  | [] => some s
  | c :: cs =>
    match s.step c with
    | some (s', _) => s'.run cs
    | none => none

end System

/-- Every call is admitted. -/
def AnyCall (_ : System D) (_ : Call) : Prop := True

/-- The states reached from `from_hyp_mem` on `boot` by calls that `allowed` admits. -/
inductive Reachable (boot : HypMem) (allowed : System D → Call → Prop) : System D → Prop
  | init {s : System D} : System.boot boot = some s → Reachable boot allowed s
  | step {s s' : System D} {c : Call} {r : Except Error Unit} : Reachable boot allowed s →
      allowed s c → s.step c = some (s', r) → Reachable boot allowed s'

theorem Reachable.run {boot : HypMem} {allowed : System D → Call → Prop} {s s' : System D}
    (h : Reachable boot allowed s) :
    ∀ cs : List Call, (∀ s, ∀ c ∈ cs, allowed s c) → s.run cs = some s' →
      Reachable boot allowed s' := by
  intro cs
  induction cs generalizing s with
  | nil => intro _ hr; cases hr; exact h
  | cons c cs ih =>
    intro hc hr
    simp only [System.run] at hr
    split at hr
    · exact ih (h.step (hc s c (List.mem_cons_self c cs)) ‹_›)
        (fun s c hm => hc s c (List.mem_cons_of_mem _ hm)) hr
    · cases hr

/-- Admitting more calls reaches more states. -/
theorem Reachable.mono {boot : HypMem} {allowed allowed' : System D → Call → Prop}
    (hle : ∀ s c, allowed s c → allowed' s c) {s : System D} (h : Reachable boot allowed s) :
    Reachable boot allowed' s := by
  induction h with
  | init hb => exact .init hb
  | step _ ha hs ih => exact .step ih (hle _ _ ha) hs

/-- A property that holds after running calls `allowed` admits from boot holds of a state
reachable by them. -/
theorem exists_reachable_of_allowed_run (m : HypMem) (cs : List Call)
    {allowed : System D → Call → Prop} (hc : ∀ s, ∀ c ∈ cs, allowed s c) (P : System D → Bool)
    (h : ((System.boot m).bind (·.run cs)).any P = true) :
    ∃ s, Reachable m allowed s ∧ P s = true := by
  obtain ⟨s, hs, hp⟩ : ∃ s, (System.boot m).bind (·.run cs) = some s ∧ P s = true := by
    rcases hb : (System.boot m).bind (·.run cs) with _ | s
    · rw [hb] at h; cases h
    · rw [hb] at h; exact ⟨s, rfl, h⟩
  simp only [Option.bind_eq_some] at hs
  obtain ⟨s₀, hb, hr⟩ := hs
  exact ⟨s, (Reachable.init hb).run cs hc hr, hp⟩

/-- A property that holds after running `cs` from boot holds of a reachable state. -/
theorem exists_reachable_of_run (m : HypMem) (cs : List Call) (P : System D → Bool)
    (h : ((System.boot m).bind (·.run cs)).any P = true) :
    ∃ s, Reachable m AnyCall s ∧ P s = true :=
  exists_reachable_of_allowed_run m cs (fun _ _ _ => trivial) P h

/-! ## A small machine

The boot memory the concrete runs below start from: the host's root at `0x8000_0000`, three
PTE pages, and sixteen host pages from `0x8001_0000`, every byte of memory set to one. -/

/-- The boot memory of the concrete runs. -/
def smallHypMem : HypMem where
  rootPages := (SequentialPages.fromMemRange ⟨0x80000000, by decide, by decide⟩ 4).intoIter.drain
  ptePages := (SequentialPages.fromMemRange ⟨0x80004000, by decide, by decide⟩ 3).intoIter.drain
  hostPages := (SequentialPages.fromMemRange ⟨0x80010000, by decide, by decide⟩ 16).intoIter.drain
  nodup := by decide
  contents := fun _ _ => 1
  maxGuests := 16
  maxOwners := 8

/-- The calls that build the host over its sixteen pages, identity-mapped in two batches, and
a guest over the first six, then give the guest three PTE pages and map one page at its GPA
0, unmeasured. -/
def smallCalls : List Call :=
  [.add4kDataPages 0 ⟨0x80010000, by decide, by decide⟩ (smallHypMem.hostPages.take 8),
   .add4kDataPages 0 ⟨0x80018000, by decide, by decide⟩ (smallHypMem.hostPages.drop 8),
   .createHost 0,
   .createGuestRootBuilder 0 ⟨0x80010000, by decide, by decide⟩,
   .addPtePagesBuilder 0 ⟨0x80018000, by decide, by decide⟩ 3 1,
   .add4kPagesBuilder 0 ⟨0x8001C000, by decide, by decide⟩ 1 1 ⟨0, by decide, by decide⟩ false]

end Salus
