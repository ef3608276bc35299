import Salus.Holdings

/-!
# Measurement

What the builders fold into a VM's measurement. A guest builder measures every
`add_data_page` call before it maps the page (`vm_pages.rs:330-337`), so the measurement is the
fold over every such call, whether its mapping succeeded or not, and a pair whose mapping
failed is attested although the guest's table does not map it. The host builder's
`add_4k_data_pages` starts from `D::default()` (`vm_pages.rs:233`), so each call replaces the
measurement of the calls before it.
-/

namespace Salus

variable {D : Type} [Inhabited D] [DataMeasure D]

/-- `D::add_page` folded over `(gpa, page)` pairs from `d`. -/
def measureAll (d : D) (pairs : List (Nat × Page4k)) : D :=
  pairs.foldl (fun d x => DataMeasure.addPage d x.1 x.2) d

/-! ## Guest builders -/

/-- A direct call on a `GuestRootBuilder`. -/
inductive BuilderCall
  | addPtePage (page : Page4k)
  | addDataPage (gpa : Nat) (page : Page4k)
  | addZeroPage (gpa : Nat) (page : Page4k)

namespace BuilderCall

/-- Runs the call. -/
def apply (b : GuestRootBuilder D) : BuilderCall → Except Error Unit × GuestRootBuilder D
  | addPtePage page => b.addPtePage page
  | addDataPage gpa page => b.addDataPage gpa page
  | addZeroPage gpa page => b.addZeroPage gpa page

/-- The pair an `add_data_page` call hands to `D::add_page`. -/
def measured : BuilderCall → Option (Nat × Page4k)
  | addDataPage gpa page => some (gpa, page)
  | _ => none

end BuilderCall

/-- Runs calls one after another on a builder: their results, and the builder left. -/
def GuestRootBuilder.runCalls (b : GuestRootBuilder D) :
    List BuilderCall → List (Except Error Unit) × GuestRootBuilder D
  | [] => ([], b)
  | c :: cs =>
    let (r, b) := c.apply b
    let (rs, b) := b.runCalls cs
    (r :: rs, b)

omit [Inhabited D] in
/-- A call adds its pair to the measurement, if it has one, whether it succeeds or not. -/
theorem BuilderCall.apply_measurement (b : GuestRootBuilder D) (c : BuilderCall) :
    (c.apply b).2.measurement = measureAll b.measurement c.measured.toList := by
  cases c with
  | addPtePage page =>
    simp only [apply, GuestRootBuilder.addPtePage]
    split <;> rfl
  | addDataPage gpa page => rfl
  | addZeroPage gpa page => rfl

omit [Inhabited D] in
theorem GuestRootBuilder.runCalls_measurement (b : GuestRootBuilder D) (cs : List BuilderCall) :
    (b.runCalls cs).2.measurement = measureAll b.measurement (cs.filterMap BuilderCall.measured) := by
  induction cs generalizing b with
  | nil => rfl
  | cons c cs ih =>
    simp only [runCalls, ih, BuilderCall.apply_measurement]
    cases c <;> simp [BuilderCall.measured, measureAll]

/-- The measurement of the `VmPages` a guest builder creates is `D::add_page` folded from
`D::default()` over the pair of every `add_data_page` call, in call order, whether the call
returned `Ok` or `Err`. -/
theorem createPages_measurement (root : PageTable) (ptePage : Page4k) (cs : List BuilderCall) :
    ((GuestRootBuilder.new root ptePage : GuestRootBuilder D).runCalls cs).2.createPages.measurement =
      measureAll default (cs.filterMap BuilderCall.measured) :=
  GuestRootBuilder.runCalls_measurement _ cs

/-- A lone `add_data_page` on a new builder over the four-page root `create_guest_root_builder`
builds in the small run, which `T::new` accepts. The builder's empty PTE pool cannot link the
walk to GPA 0, so the call fails with `NoPte`; yet its pair is measured, and the measurement
differs from the fold over the calls that returned `Ok`. -/
theorem createPages_measures_failed_call :
    let root : PageTable :=
      ⟨SequentialPages.fromMemRange ⟨0x80010000, by decide, by decide⟩ 4, ⟨2⟩, [], []⟩
    let b : GuestRootBuilder PageLog := .new root ⟨⟨0x80014000, by decide, by decide⟩⟩
    let cs := [BuilderCall.addDataPage 0 ⟨⟨0x80015000, by decide, by decide⟩⟩]
    PageTable.new root.root ⟨2⟩ = .ok root ∧
    (∃ s : System PageLog, Reachable smallHypMem AnyCall s ∧ ∃ b',
      s.principals[1]? = some (.guestBuilder b') ∧ b'.root.rootPages = root.rootPages ∧
        b'.root.owner = root.owner) ∧
    (b.runCalls cs).1 = [.error (.mapping4kPage .noPte)] ∧ (b.runCalls cs).2.root.entry 0 = none ∧
      (b.runCalls cs).2.createPages.measurement ≠ measureAll default
        ((cs.zip (b.runCalls cs).1).filterMap fun x => if x.2.isOk then x.1.measured else none) := by
  refine ⟨rfl, ?_, rfl, by decide, by decide⟩
  obtain ⟨s, hs, hp⟩ := exists_reachable_of_run smallHypMem (smallCalls.take 4)
    (fun s : System PageLog =>
      match s.principals[1]? with
      | some (Principal.guestBuilder b') =>
        b'.root.rootPages ==
            (SequentialPages.fromMemRange ⟨0x80010000, by decide, by decide⟩ 4).intoIter.drain &&
          b'.root.owner == ⟨2⟩
      | _ => false) (by decide)
  refine ⟨s, hs, ?_⟩
  revert hp
  split
  · rename_i b' hb'
    simp only [Bool.and_eq_true, beq_iff_eq]
    exact fun h => ⟨b', hb', h.1, h.2⟩
  · nofun

/-! ## The host builder -/

/-- The `(gpa, page)` pairs `pages.zip(to_addr.iter_from())` yields. -/
def zipIterFrom : List Page4k → Option Nat → List (Nat × Page4k)
  | [], _ => []
  | page :: pages, vmAddr =>
    match iterFromNext vmAddr with
    | none => []
    | some (vmAddr, next) => (vmAddr, page) :: zipIterFrom pages next

omit [Inhabited D] in
theorem add4kDataPagesLoop_measurement : ∀ (pages : List Page4k) (vmAddr : Option Nat) (d d' : D)
    (root root' : PageTable) (ptePages ptePages' : List Page4k) (phys phys' : PhysPages),
    HostRootBuilder.add4kDataPagesLoop pages vmAddr d root ptePages phys =
      some (d', root', ptePages', phys') → d' = measureAll d (zipIterFrom pages vmAddr)
  | [], _, _, _, _, _, _, _, _, _, h => by cases h; rfl
  | page :: pages, vmAddr, d, d', root, root', ptePages, ptePages', phys, phys', h => by
    simp only [HostRootBuilder.add4kDataPagesLoop] at h
    rcases hit : iterFromNext vmAddr with _ | ⟨a, next⟩ <;>
      simp only [zipIterFrom, hit, Option.bind_eq_bind, Option.bind_eq_some] at h ⊢
    · cases h; rfl
    · obtain ⟨⟨root₁, pte₁, phys₁⟩, -, h⟩ := h
      exact add4kDataPagesLoop_measurement pages next _ _ _ _ _ _ _ _ h

/-- Whatever the builder had measured, `add_4k_data_pages` leaves the measurement of its own
pages alone: `D::add_page` folded from `D::default()` over the pairs of this call. -/
theorem add4kDataPages_measurement {b b' : HostRootBuilder D} {toAddr : PageAddr PageSize4k}
    {pages : List Page4k} {phys phys' : PhysPages}
    (h : b.add4kDataPages toAddr pages phys = some (b', phys')) :
    b'.measurement = measureAll default (zipIterFrom pages (some toAddr.bits)) := by
  simp only [HostRootBuilder.add4kDataPages, Option.bind_eq_bind, Option.bind_eq_some] at h
  obtain ⟨⟨d, root, pte, phys₁⟩, hl, h⟩ := h
  cases h
  exact add4kDataPagesLoop_measurement _ _ _ _ _ _ _ _ _ _ hl

/-- The host of the small machine, built by two `add_4k_data_pages` calls over eight pages
each: the measurement of `create_host().into_inner()` holds the second batch only. -/
theorem createHost_forgets_first_batch :
    ((System.boot smallHypMem : Option (System PageLog)).bind (·.run (smallCalls.take 3))).map
        (fun s => match s.principals with
          | [.vm v] => v.measurement
          | _ => default) =
      some (measureAll default (zipIterFrom (smallHypMem.hostPages.drop 8) (some 0x80018000))) ∧
    measureAll (default : PageLog) (zipIterFrom (smallHypMem.hostPages.drop 8) (some 0x80018000)) ≠
      measureAll default ([(0x80010000, smallHypMem.hostPages.take 8),
        (0x80018000, smallHypMem.hostPages.drop 8)].flatMap fun x => zipIterFrom x.2 (some x.1)) := by
  decide

end Salus
