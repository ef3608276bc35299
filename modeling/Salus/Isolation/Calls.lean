import Salus.Isolation.Invariant

/-!
# What each loop of `vm_pages.rs` keeps

Every loop is walked once here, for any property its iterations keep: a structure names what one
iteration must keep (`KeptByHandOver`, `KeptByUnmap`, `KeptByMap`, `KeptByPull`) and an induction
over the slots or pages carries it over the whole loop. Isolation is one such property; the
conservation of pages and the owner ids are others. The loops of `add_pte_pages_builder` and
`add_4k_pages_builder` act on two principals at once, the parent VM and the child's builder, and
`withPair` names that state. `create_guest_root_builder` also gets one lemma that says what it
does.
-/

namespace Salus

variable {D : Type} [Inhabited D] [DataMeasure D]

/-- The principals with the parent at `i` and the child's builder at `j` replaced. -/
def withPair (ps : List (Principal D)) (i j : Nat) (x y : Principal D) : List (Principal D) :=
  (ps.set i x).set j y

section WithPair

omit [Inhabited D] [DataMeasure D]

variable {ps : List (Principal D)} {i j : Nat} {x y : Principal D}

theorem withPair_getElem?_left (hij : i ≠ j) (hi : i < ps.length) :
    (withPair ps i j x y)[i]? = some x := by
  rw [withPair, List.getElem?_set_ne hij.symm, List.getElem?_set_self hi]

theorem withPair_getElem?_right (hj : j < ps.length) : (withPair ps i j x y)[j]? = some y := by
  simp [withPair, List.getElem?_set, hj]

theorem withPair_set_left (hij : i ≠ j) (x' : Principal D) :
    (withPair ps i j x y).set i x' = withPair ps i j x' y := by
  rw [withPair, List.set_comm _ _ _ hij.symm, List.set_set, withPair]

theorem withPair_set_right (y' : Principal D) :
    (withPair ps i j x y).set j y' = withPair ps i j x y' :=
  List.set_set _ _ _ _

theorem set_of_getElem?_eq {l : List (Principal D)} {n : Nat} {a : Principal D}
    (h : l[n]? = some a) : l.set n a = l := by
  apply List.ext_getElem?
  intro k
  rw [List.getElem?_set]
  split
  · subst k
    rw [if_pos (List.getElem?_eq_some_iff.mp h).1, h]
  · rfl

theorem withPair_self (hx : ps[i]? = some x) (hy : ps[j]? = some y) : withPair ps i j x y = ps := by
  rw [withPair, set_of_getElem?_eq hx, set_of_getElem?_eq hy]

theorem ne_of_vm_guestBuilder {v : VmPages D} {b : GuestRootBuilder D}
    (hv : ps[i]? = some (.vm v)) (hb : ps[j]? = some (.guestBuilder b)) : i ≠ j := by
  rintro rfl
  rw [hv] at hb
  cases hb

end WithPair

namespace System

section Handing

omit [Inhabited D] [DataMeasure D]

variable {ps : List (Principal D)} {L : List Page4k} {i j : Nat} {meas : D} {t : PageTable}
  {dest : GuestRootBuilder D} {m : Machine} {g : Nat} {p : Page4k}

/-- The parent's half of handing on the page of its valid leaf at `g`: the leaf is invalidated,
and once `set_page_owner` succeeds the page, held by nobody, has the child's id on top. -/
theorem Isolated.handOver (hij : i ≠ j) (hi : i < ps.length)
    (hs : (System.mk m (withPair ps i j (.vm ⟨t, meas⟩) (.guestBuilder dest)) L).Isolated)
    (he : t.entry g = some ⟨p, true⟩) :
    (∀ m₁ : Machine, m₁.phys = m.phys →
      (System.mk m₁ (withPair ps i j (.vm ⟨t.invalidate g, meas⟩) (.guestBuilder dest)) L).Isolated) ∧
    ∀ {phys : PhysPages}, m.phys.setPageOwner p.addr dest.pageOwnerId = .ok phys →
      ∀ m₂ : Machine, m₂.phys = phys →
        (System.mk m₂ (withPair ps i j (.vm ⟨t.invalidate g, meas⟩) (.guestBuilder dest)) L).Isolated ∧
        p ∉ (System.mk m₂ (withPair ps i j (.vm ⟨t.invalidate g, meas⟩) (.guestBuilder dest))
          L).exclusivePages ∧ phys.owner p.bits = some dest.root.owner := by
  obtain ⟨hs₁, hsub, -⟩ := hs.invalidate (withPair_getElem?_left hij hi) he
  rw [withPair_set_left hij] at hs₁ hsub
  have hp := List.nodup_append.mp (nodup_of_subperm hsub hs.nodup)
  replace hp : p ∉ _ := fun h => hp.2.2 h (List.mem_singleton_self p)
  refine ⟨fun m₁ hm => hs₁.of_owners_eq (by rw [hm]) (by rw [hm]), fun hset m₂ hm => ?_⟩
  obtain ⟨-, rfl⟩ := PhysPages.setPageOwner_eq_ok hset
  exact ⟨hs₁.setOwners hp hm, hp, by
    simp [PhysPages.owner, Page.bits, GuestRootBuilder.pageOwnerId, PageTable.pageOwnerId]⟩

end Handing

/-! ## Builders taking a page -/

/-- The builder `b'` holds what `b` held and at most the page `p` more, in the same table. -/
structure Places (p : Page4k) (b b' : GuestRootBuilder D) : Prop where
  held : (Principal.guestBuilder b').heldPages.Subperm ((Principal.guestBuilder b).heldPages ++ [p])
  valid : b'.root.validPages.Subperm (b.root.validPages ++ [p])
  owner : b'.root.owner = b.root.owner
  invalid : b'.root.invalidPages = b.root.invalidPages

section Placing

omit [Inhabited D] [DataMeasure D]

theorem places_mapPage (b : GuestRootBuilder D) (gpa : Nat) (p : Page4k) :
    Places p b (b.mapPage gpa p).2 :=
  have hv := b.root.validPages_mapPage4k gpa p b.ptePages.items
  ⟨Principal.heldPages_mapPage b gpa p, hv.1, (b.root.mapPage4k_spec gpa p b.ptePages.items).2.1,
    hv.2⟩

theorem places_addPtePage (b : GuestRootBuilder D) (p : Page4k) : Places p b (b.addPtePage p).2 :=
  ⟨Principal.heldPages_addPtePage b p, by simpa using (List.sublist_append_left _ _).subperm,
    by simp, by simp⟩

theorem places_addDataPage [DataMeasure D] (b : GuestRootBuilder D) (gpa : Nat) (p : Page4k) :
    Places p b (b.addDataPage gpa p).2 :=
  let h := places_mapPage { b with measurement := DataMeasure.addPage b.measurement gpa p } gpa p
  ⟨h.held, h.valid, h.owner, h.invalid⟩

theorem places_addZeroPage (b : GuestRootBuilder D) (gpa : Nat) (p : Page4k) :
    Places p b (b.addZeroPage gpa p).2 :=
  places_mapPage b gpa p

/-- `add_4k_pages_builder` maps each page through `add_data_page` or `add_zero_page`. -/
theorem places_addPage [DataMeasure D] (b : GuestRootBuilder D) (measurePreserve : Bool)
    (gpa : Nat) (p : Page4k) :
    Places p b (if measurePreserve then b.addDataPage gpa p else b.addZeroPage gpa p).2 := by
  cases measurePreserve
  exacts [places_addZeroPage b gpa p, places_addDataPage b gpa p]

/-- A guest builder takes a page nobody holds, with its id on top. -/
theorem Isolated.placeBuilder {m : Machine} {ps : List (Principal D)} {L : List Page4k} {j : Nat}
    {b b' : GuestRootBuilder D} {p : Page4k} (hs : (System.mk m ps L).Isolated)
    (hw : ps[j]? = some (.guestBuilder b)) (hp : p ∉ (System.mk m ps L).exclusivePages)
    (htop : m.phys.owner p.bits = some b.root.owner) (h : Places p b b') :
    (System.mk m (ps.set j (.guestBuilder b')) L).Isolated :=
  hs.place hw rfl hp htop h.held h.valid h.owner h.invalid

end Placing

/-! ## Hand-overs

The loops of `add_pte_pages_builder` and `add_4k_pages_builder` are made of hand-overs: the
parent's valid leaf at a slot is invalidated, and its page is dropped, or goes, once the child's
id is pushed on its stack, to the child's builder, which takes at most that page. Each loop is
walked once here, for every property hand-overs keep. -/

/-- A property of the parent's table, the child's builder and the machine that every hand-over
keeps, whether the page is dropped or put in the builder. -/
structure KeptByHandOver (Q : PageTable → GuestRootBuilder D → Machine → Prop) : Prop where
  drop : ∀ {t : PageTable} {dest : GuestRootBuilder D} {m : Machine} {g : Nat} {p : Page4k},
    t.entry g = some ⟨p, true⟩ → Q t dest m →
      ∀ m' : Machine, m'.phys = m.phys → Q (t.invalidate g) dest m'
  put : ∀ {t : PageTable} {dest dest' : GuestRootBuilder D} {m : Machine} {g : Nat} {p : Page4k}
    {phys : PhysPages}, t.entry g = some ⟨p, true⟩ → Q t dest m →
      m.phys.setPageOwner p.addr dest.pageOwnerId = .ok phys → Places p dest dest' →
      ∀ m' : Machine, m'.phys = phys → Q (t.invalidate g) dest' m'

section HandOvers

omit [Inhabited D] [DataMeasure D]

variable {Q : PageTable → GuestRootBuilder D → Machine → Prop}

theorem addPtePagesLoop_induct (hQ : KeptByHandOver Q) :
    ∀ (slots : List Nat) {t t' : PageTable} {dest dest' : GuestRootBuilder D} {m m' : Machine}
      {r : Except Error Unit}, VmPages.addPtePagesLoop slots t dest m = (r, t', dest', m') →
    Q t dest m → Q t' dest' m'
  | [], _, _, _, _, _, _, _, h, hq => by cases h; exact hq
  | g :: rest, t, t', dest, dest', m, m', r, h, hq => by
    simp only [VmPages.addPtePagesLoop] at h
    split at h
    · rename_i t₁ heq
      exact addPtePagesLoop_induct hQ rest (PageTable.invalidateSlot_eq_none heq ▸ h) hq
    · rename_i p t₁ heq
      obtain ⟨he, rfl⟩ := PageTable.invalidateSlot_eq_some heq
      split at h
      · cases h
        exact hQ.drop he hq _ rfl
      · rename_i phys hset
        have hpl := places_addPtePage dest p
        split at h
        · rename_i e dest₁ hadd
          cases h
          rw [hadd] at hpl
          exact hQ.put he hq hset hpl _ rfl
        · rename_i dest₁ hadd
          rw [hadd] at hpl
          exact addPtePagesLoop_induct hQ rest h (hQ.put he hq hset hpl _ rfl)

omit [DataMeasure D] in
theorem add4kPagesBuilderLoop_induct [DataMeasure D] (hQ : KeptByHandOver Q)
    (measurePreserve : Bool) :
    ∀ (slots : List Nat) {guestAddr : Option Nat} {t t' : PageTable}
      {dest dest' : GuestRootBuilder D} {m m' : Machine} {r : Except Error Unit},
    VmPages.add4kPagesBuilderLoop measurePreserve slots guestAddr t dest m = (r, t', dest', m') →
    Q t dest m → Q t' dest' m'
  | [], _, _, _, _, _, _, _, _, h, hq => by cases h; exact hq
  | g :: rest, guestAddr, t, t', dest, dest', m, m', r, h, hq => by
    simp only [VmPages.add4kPagesBuilderLoop] at h
    split at h
    · rename_i t₁ heq
      exact add4kPagesBuilderLoop_induct hQ measurePreserve rest
        (PageTable.invalidateSlot_eq_none heq ▸ h) hq
    · rename_i p t₁ heq
      obtain ⟨he, rfl⟩ := PageTable.invalidateSlot_eq_some heq
      split at h
      · cases h
        exact hQ.drop he hq _ rfl
      · rename_i a next _
        split at h
        · cases h
          exact hQ.drop he hq _ rfl
        · rename_i phys hset
          have hq' :=
            hQ.put he hq hset (places_addPage dest measurePreserve a p) { m with phys } rfl
          split at h
          · cases h
            exact hq'
          · exact add4kPagesBuilderLoop_induct hQ measurePreserve rest h hq'

/-- Hand-overs between a VM and a guest builder keep the system isolated. -/
theorem isolated_keptByHandOver {ps : List (Principal D)} {L : List Page4k} {i j : Nat}
    (hij : i ≠ j) (hi : i < ps.length) (hj : j < ps.length) (meas : D) :
    KeptByHandOver fun t dest m =>
      (System.mk m (withPair ps i j (.vm ⟨t, meas⟩) (.guestBuilder dest)) L).Isolated where
  drop he hs := (hs.handOver hij hi he).1
  put he hs hset hpl m₂ hm := by
    obtain ⟨hs₂, hp, htop⟩ := (hs.handOver hij hi he).2 hset m₂ hm
    have hs₃ := hs₂.placeBuilder (withPair_getElem?_right hj) hp (hm ▸ htop) hpl
    rwa [withPair_set_right] at hs₃

end HandOvers

/-! ## `remove_4k_pages`

Each slot of `remove_4k_pages` unmaps a leaf, cleans its page and pops the page's owner stack.
The loop goes on while the popped owner is the VM's own id and stops with `UnownedPage`
otherwise. The loop is walked once here, for every property its slots keep. -/

/-- A property of the outcome so far, the VM's table and the machine that every slot keeps: one
that pops the VM's own id, and one that stops the loop. -/
structure KeptByUnmap (ownerId : PageOwnerId)
    (Q : Except Error Unit → PageTable → Machine → Prop) : Prop where
  pop : ∀ {t : PageTable} {m : Machine} {g : Nat} {e : Pte} {phys : PhysPages},
    t.entry g = some e → Q (.ok ()) t m → m.phys.popOwner e.page.addr = .ok (ownerId, phys) →
    Q (.ok ()) (t.unmap g) ⟨phys, m.mem.clean e.page⟩
  stop : ∀ {t : PageTable} {m : Machine} {g : Nat} {e : Pte} {phys : PhysPages},
    t.entry g = some e → Q (.ok ()) t m →
    (phys = m.phys ∨ ∃ top, m.phys.popOwner e.page.addr = .ok (top, phys)) →
    Q (.error (.unownedPage e.page.addr)) (t.unmap g) ⟨phys, m.mem.clean e.page⟩

omit [Inhabited D] [DataMeasure D] in
theorem remove4kPagesLoop_induct {ownerId : PageOwnerId}
    {Q : Except Error Unit → PageTable → Machine → Prop} (hQ : KeptByUnmap ownerId Q) :
    ∀ (slots : List Nat) {t t' : PageTable} {m m' : Machine} {r : Except Error Unit},
    VmPages.remove4kPagesLoop ownerId slots t m = (r, t', m') → Q (.ok ()) t m → Q r t' m'
  | [], _, _, _, _, _, h, hq => by cases h; exact hq
  | g :: rest, t, t', m, m', r, h, hq => by
    simp only [VmPages.remove4kPagesLoop] at h
    split at h
    · rename_i t₁ heq
      exact remove4kPagesLoop_induct hQ rest (PageTable.unmapSlot_eq_none heq ▸ h) hq
    · rename_i p t₁ heq
      obtain ⟨e, he, rfl, rfl⟩ := PageTable.unmapSlot_eq_some heq
      split at h
      · cases h
        exact hQ.stop he hq (.inl rfl)
      · rename_i owner phys hpop
        split at h
        · cases h
          exact hQ.stop he hq (.inr ⟨owner, hpop⟩)
        · rename_i howner
          rw [not_not] at howner
          subst howner
          exact remove4kPagesLoop_induct hQ rest h (hQ.pop he hq hpop)

omit [Inhabited D] [DataMeasure D] in
/-- As long as no page turns out to be foreign, each slot of `remove_4k_pages` unmaps a page
that has the VM's id on top and pops that id. -/
theorem isolated_keptByUnmap {ps : List (Principal D)} {L : List Page4k} {i : Nat}
    (hi : i < ps.length) (meas : D) (ownerId : PageOwnerId) :
    KeptByUnmap ownerId fun r t m => t.owner = ownerId ∧
      ((∀ a, r ≠ .error (.unownedPage a)) →
        (System.mk m (ps.set i (.vm ⟨t, meas⟩)) L).Isolated) where
  pop := by
    intro t m g e phys he ⟨ht, hs⟩ hpop
    obtain ⟨below, -, hst, hphys⟩ := PhysPages.popOwner_eq_ok hpop
    have htop : m.phys.owner e.page.bits = some t.owner := by
      simp [PhysPages.owner, Page.bits, hst, ht]
    obtain ⟨hs₁, hp⟩ := (hs fun _ => nofun).unmap (List.getElem?_set_self hi) he htop
    rw [List.set_set] at hs₁ hp
    exact ⟨ht, fun _ => hs₁.setOwners hp hphys⟩
  stop _ hq _ := ⟨hq.1, fun hr => absurd rfl (hr _)⟩

/-! ## The host builder

The loop of `add_4k_data_pages`, which `add_4k_pages` runs too, maps the caller's pages one at a
time: the host's id is pushed on the page's stack and the page goes to a valid leaf of the host's
table, with interior nodes from the PTE reservoir. The pages left when the guest addresses run out
are dropped. The loop is walked once here, for every property its steps keep. -/

/-- A property of the pages still to map, the host's table, its PTE reservoir and the owner
stacks that every mapped page keeps, and that dropping the pages left keeps. -/
structure KeptByMap (Q : List Page4k → PageTable → List Page4k → PhysPages → Prop) : Prop where
  map : ∀ {page : Page4k} {pages : List Page4k} {root : PageTable} {pte : List Page4k}
    {phys phys' : PhysPages} {a : Nat}, Q (page :: pages) root pte phys →
    phys.setPageOwner page.addr root.pageOwnerId = .ok phys' →
    Q pages (root.mapPage4k a page pte).2.1 (root.mapPage4k a page pte).2.2 phys'
  drop : ∀ {pages : List Page4k} {root : PageTable} {pte : List Page4k} {phys : PhysPages},
    Q pages root pte phys → Q [] root pte phys

omit [Inhabited D] in
theorem add4kDataPagesLoop_induct {Q : List Page4k → PageTable → List Page4k → PhysPages → Prop}
    (hQ : KeptByMap Q) :
    ∀ (pages : List Page4k) {vmAddr : Option Nat} {d d' : D} {root root' : PageTable}
      {pte pte' : List Page4k} {phys phys' : PhysPages},
    HostRootBuilder.add4kDataPagesLoop pages vmAddr d root pte phys = some (d', root', pte', phys') →
    Q pages root pte phys → Q [] root' pte' phys'
  | [], _, _, _, _, _, _, _, _, _, h, hq => by cases h; exact hq
  | page :: pages, vmAddr, d, d', root, root', pte, pte', phys, phys', h, hq => by
    simp only [HostRootBuilder.add4kDataPagesLoop] at h
    split at h
    · cases h
      exact hQ.drop hq
    · rename_i a next _
      simp only [Option.bind_eq_bind, Option.bind_eq_some] at h
      obtain ⟨⟨root₁, pte₁, phys₁⟩, hmap, h⟩ := h
      obtain ⟨hset, hpair⟩ := HostRootBuilder.mapHostPage_eq_some hmap
      obtain ⟨rfl, rfl⟩ : root₁ = (root.mapPage4k a page pte).2.1 ∧
          pte₁ = (root.mapPage4k a page pte).2.2 := by
        rw [hpair]
        exact ⟨rfl, rfl⟩
      exact add4kDataPagesLoop_induct hQ pages h (hQ.map hq hset)

omit [Inhabited D] [DataMeasure D] in
/-- Each page the host's loop maps leaves the caller's hands for a valid leaf of the host, with
the host's id pushed on its stack; the pages the loop does not reach are dropped. -/
theorem isolated_keptByMap {ps : List (Principal D)} {i : Nat} (hi : i < ps.length)
    (rest : List Page4k) (mem : Memory) (d₀ : D) :
    KeptByMap fun pages root pte phys =>
      (System.mk ⟨phys, mem⟩ (ps.set i (.hostBuilder ⟨root, pte, d₀⟩)) (pages ++ rest)).Isolated
    where
  map := by
    intro page pages root pte phys phys' a hs hset
    obtain ⟨hs₁, hp⟩ := hs.erase_loose (List.mem_cons_self page (pages ++ rest))
    rw [List.cons_append, List.erase_cons_head] at hs₁ hp
    obtain ⟨-, hphys⟩ := PhysPages.setPageOwner_eq_ok hset
    have hs₂ : (System.mk ⟨phys', mem⟩ _ _).Isolated := hs₁.setOwners hp hphys
    have hv := root.validPages_mapPage4k a page pte
    have hs₃ := hs₂.place (List.getElem?_set_self hi) rfl hp
      (by simp [hphys, PhysPages.owner, Page.bits, Principal.root, PageTable.pageOwnerId])
      (Principal.heldPages_mapPage4k root pte d₀ d₀ a page) hv.1
      (root.mapPage4k_spec a page pte).2.1 hv.2
    rwa [List.set_set] at hs₃
  drop hs := hs.subperm_loose (List.sublist_append_right _ _).subperm

/-- `add_4k_data_pages` runs its loop from `D::default()`. -/
theorem add4kDataPages_loop {b b' : HostRootBuilder D} {toAddr : PageAddr PageSize4k}
    {pages : List Page4k} {phys phys' : PhysPages}
    (h : b.add4kDataPages toAddr pages phys = some (b', phys')) :
    HostRootBuilder.add4kDataPagesLoop pages (some toAddr.bits) default b.root b.ptePages phys =
      some (b'.measurement, b'.root, b'.ptePages, phys') := by
  simp only [HostRootBuilder.add4kDataPages, Option.bind_eq_bind, Option.bind_eq_some] at h
  obtain ⟨⟨d', root, pte, phys₁⟩, hl, h⟩ := h
  cases h
  exact hl

omit [Inhabited D] in
/-- `add_4k_pages` runs the loop of `add_4k_data_pages` with any measurement. -/
theorem add4kPages_loop {b b' : HostRootBuilder D} {toAddr : PageAddr PageSize4k}
    {pages : List Page4k} {phys phys' : PhysPages} (d : D)
    (h : b.add4kPages toAddr pages phys = some (b', phys')) : ∃ d',
    HostRootBuilder.add4kDataPagesLoop pages (some toAddr.bits) d b.root b.ptePages phys =
      some (d', b'.root, b'.ptePages, phys') := by
  simp only [HostRootBuilder.add4kPages, HostRootBuilder.add4kPagesLoop_eq _ _ d,
    Option.bind_eq_bind, Option.bind_eq_some, Option.map_eq_some'] at h
  obtain ⟨_, ⟨⟨d', root, pte, phys₁⟩, hl, rfl⟩, h⟩ := h
  cases h
  exact ⟨d', hl⟩

/-! ## `create_guest_root_builder`

`clean_pages` pulls pages one at a time: the next valid leaf of the window is invalidated, and
its page, with the new id pushed on its stack, joins the pages pulled so far. The pulls are
walked once here, for every property they keep. -/

/-- A property of the pages pulled so far, the parent's table and the owner stacks that every
pull keeps. -/
structure KeptByPull (id : PageOwnerId) (Q : List Page4k → PageTable → PhysPages → Prop) :
    Prop where
  pull : ∀ {hand : List Page4k} {t : PageTable} {phys phys' : PhysPages} {g : Nat} {p : Page4k},
    t.entry g = some ⟨p, true⟩ → Q hand t phys → phys.setPageOwner p.addr id = .ok phys' →
    Q (hand ++ [p]) (t.invalidate g) phys'

section Pulls

omit [Inhabited D] [DataMeasure D]

variable {id : PageOwnerId} {Q : List Page4k → PageTable → PhysPages → Prop}

theorem cleanPagesNext_induct (hQ : KeptByPull id Q) {hand : List Page4k}
    {slots slots' : List Nat} {t t' : PageTable} {phys phys' : PhysPages} {op : Option Page4k}
    (h : VmPages.cleanPagesNext id slots t phys = some (op, slots', t', phys'))
    (hq : Q hand t phys) : Q (hand ++ op.toList) t' phys' := by
  unfold VmPages.cleanPagesNext at h
  split at h
  · rename_i t₁ heq
    cases h
    rw [PageTable.invalidateNext_eq_none heq, Option.toList_none, List.append_nil]
    exact hq
  · rename_i p rest t₁ heq
    obtain ⟨g, he, rfl⟩ := PageTable.invalidateNext_eq_some heq
    rcases hset : phys.setPageOwner p.addr id with e | phys₂ <;>
      simp only [hset, Except.toOption, Option.bind_eq_bind, Option.none_bind, Option.some_bind,
        reduceCtorEq, Option.some.injEq, Prod.mk.injEq] at h
    obtain ⟨rfl, rfl, rfl, rfl⟩ := h
    exact hQ.pull he hq hset

theorem cleanPagesTake_induct (hQ : KeptByPull id Q) :
    ∀ (n : Nat) {hand pulled : List Page4k} {slots slots' : List Nat} {t t' : PageTable}
      {phys phys' : PhysPages},
    VmPages.cleanPagesTake id n slots t phys = some (pulled, slots', t', phys') →
    Q hand t phys → Q (hand ++ pulled) t' phys'
  | 0, _, _, _, _, _, _, _, _, h, hq => by
    cases h
    simpa using hq
  | n + 1, hand, pulled, slots, slots', t, t', phys, phys', h, hq => by
    simp only [VmPages.cleanPagesTake, Option.bind_eq_bind, Option.bind_eq_some] at h
    obtain ⟨⟨op, slots₁, t₁, phys₁⟩, hnext, h⟩ := h
    have hq₁ := cleanPagesNext_induct hQ hnext hq
    cases op with
    | none =>
      cases h
      simpa using hq₁
    | some p =>
      simp only [Option.bind_eq_some] at h
      obtain ⟨⟨pulled₁, slots₂, t₂, phys₂⟩, htake, h⟩ := h
      cases h
      simpa using cleanPagesTake_induct hQ n htake hq₁

/-- The pulls of `create_guest_root_builder`: four pages for the root, then the PTE page and the
state page. -/
theorem cleanPages_induct (hQ : KeptByPull id Q) {pulled : List Page4k} {p q : Page4k}
    {slots rest₁ rest₂ rest₃ : List Nat} {t t₁ t₂ t₃ : PageTable}
    {phys phys₁ phys₂ phys₃ : PhysPages}
    (htake : VmPages.cleanPagesTake id 4 slots t phys = some (pulled, rest₁, t₁, phys₁))
    (hnext₁ : VmPages.cleanPagesNext id rest₁ t₁ phys₁ = some (some p, rest₂, t₂, phys₂))
    (hnext₂ : VmPages.cleanPagesNext id rest₂ t₂ phys₂ = some (some q, rest₃, t₃, phys₃))
    (hq : Q [] t phys) : Q (pulled ++ [p, q]) t₃ phys₃ := by
  simpa using cleanPagesNext_induct hQ hnext₂
    (cleanPagesNext_induct hQ hnext₁ (cleanPagesTake_induct hQ 4 htake hq))

end Pulls

/-- The pages `create_guest_root_builder` has pulled so far: held by nobody, distinct, each with
the new guest's id on top. -/
def Pulled (s : System D) (id : PageOwnerId) (hand : List Page4k) : Prop :=
  (s.exclusivePages ++ hand).Nodup ∧ ∀ q ∈ hand, s.machine.phys.owner q.bits = some id

omit [Inhabited D] [DataMeasure D] in
/-- A pull keeps the system isolated and the pulled pages held by nobody, with the new id on
top; it keeps the parent's owner id and the next id. -/
theorem isolated_keptByPull {ps : List (Principal D)} {L : List Page4k} {i : Nat}
    (hi : i < ps.length) (meas : D) (mem : Memory) (id o : PageOwnerId) (n : Nat) :
    KeptByPull id fun hand t phys =>
      (System.mk ⟨phys, mem⟩ (ps.set i (.vm ⟨t, meas⟩)) L).Isolated ∧
      Pulled (System.mk ⟨phys, mem⟩ (ps.set i (.vm ⟨t, meas⟩)) L) id hand ∧ t.owner = o ∧
      phys.nextId = n where
  pull := by
    intro hand t phys phys' g p he ⟨hs, hh, ho, hn⟩ hset
    obtain ⟨hs₁, hsub, -⟩ := hs.invalidate (List.getElem?_set_self hi) he
    rw [List.set_set] at hs₁ hsub
    obtain ⟨-, hphys⟩ := PhysPages.setPageOwner_eq_ok hset
    have hnd : ((System.mk ⟨phys, mem⟩ (ps.set i (.vm ⟨t.invalidate g, meas⟩)) L).exclusivePages ++
        (hand ++ [p])).Nodup := by
      have := nodup_of_subperm ((List.subperm_append_right hand).mpr hsub) hh.1
      rw [List.append_assoc] at this
      exact (List.perm_append_comm.append_left _).nodup_iff.mp this
    have hp :
        p ∉ (System.mk ⟨phys, mem⟩ (ps.set i (.vm ⟨t.invalidate g, meas⟩)) L).exclusivePages :=
      fun h => (List.nodup_append.mp hnd).2.2 h (by simp)
    have hph : p ∉ hand := fun h => (List.nodup_append.mp (List.nodup_append.mp hnd).2.1).2.2 h
      (List.mem_singleton_self p)
    refine ⟨hs₁.setOwners hp hphys, ⟨hnd, fun q hq => ?_⟩, ho, by simp [hphys, hn]⟩
    rcases List.mem_append.mp hq with hq | hq
    · have hne : q.bits ≠ p.addr.bits := fun h => hph (Page.ext_bits h ▸ hq)
      simpa [PhysPages.owner, hphys, hne] using hh.2 q hq
    · rw [List.mem_singleton.mp hq]
      simp [PhysPages.owner, hphys, Page.bits]

omit [DataMeasure D] in
/-- What `create_guest_root_builder` does. Every error leaves the table as it was, and the
machine too but for the id it may have taken. On success it has taken a fresh id and pulled six
pages from the window, with that id pushed on each: four for the builder's root, one for its PTE
pool, and the state page. -/
theorem createGuestRootBuilder_eq_some {v v' : VmPages D} {fromAddr : PageAddr PageSize4k}
    {m m' : Machine} {r : Except Error (GuestRootBuilder D × Page4k)}
    (h : v.createGuestRootBuilder fromAddr m = some (r, v', m')) :
    (v' = v ∧ m'.mem = m.mem ∧ m'.phys.owners = m.phys.owners ∧
      m.phys.nextId ≤ m'.phys.nextId ∧ ∃ e, r = .error e) ∨
    ∃ phys₁ slots rootPages rest₁ t₁ phys₂ ptePage rest₂ t₂ phys₃ sp rest₃ b,
      m.phys.addActiveGuest = .ok (⟨m.phys.nextId⟩, phys₁) ∧
      VmPages.cleanPagesTake ⟨m.phys.nextId⟩ 4 slots v.root phys₁ =
        some (rootPages, rest₁, t₁, phys₂) ∧
      VmPages.cleanPagesNext ⟨m.phys.nextId⟩ rest₁ t₁ phys₂ = some (some ptePage, rest₂, t₂, phys₃) ∧
      VmPages.cleanPagesNext ⟨m.phys.nextId⟩ rest₂ t₂ phys₃ = some (some sp, rest₃, v'.root, m'.phys) ∧
      v'.measurement = v.measurement ∧ m'.mem = m.mem ∧ r = .ok (b, sp) ∧
      (Principal.guestBuilder b).heldPages = rootPages ++ [ptePage] ∧
      b.root.owner = ⟨m.phys.nextId⟩ ∧ b.root.entries = [] := by
  unfold VmPages.createGuestRootBuilder at h
  split at h
  · cases h
    exact .inl ⟨rfl, rfl, rfl, le_rfl, _, rfl⟩
  split at h
  · cases h
    exact .inl ⟨rfl, rfl, rfl, le_rfl, _, rfl⟩
  rename_i id phys₁ hid
  obtain ⟨rfl, hown, hnext⟩ := PhysPages.addActiveGuest_eq_ok hid
  split at h
  · cases h
    exact .inl ⟨rfl, rfl, hown, by dsimp only; omega, _, rfl⟩
  simp only [Option.bind_eq_bind, Option.bind_eq_some] at h
  obtain ⟨⟨rootPages, slots₁, t₁, phys₂⟩, htake, rootSeq, hfp, root, hnew,
    ⟨op₁, slots₂, t₂, phys₃⟩, hnext₁, ptePage, hpte, ⟨op₂, slots₃, t₃, phys₄⟩, hnext₂, sp, hsp, h⟩ := h
  cases h
  dsimp only at hpte hsp
  subst hpte hsp
  have hroot : root = ⟨rootSeq, ⟨m.phys.nextId⟩, [], []⟩ := PageTable.new_eq_ok (by
    revert hnew
    cases PageTable.new rootSeq ⟨m.phys.nextId⟩ <;> simp [Except.toOption])
  subst hroot
  have hseq : rootSeq.intoIter.drain = rootPages := by
    revert hfp
    rcases hf : fromPages rootPages with _ | seq <;> simp only [Except.toOption, reduceCtorEq,
      Option.some.injEq, false_implies]
    rintro rfl
    exact (fromPages_ok hf).2.1
  refine .inr ⟨phys₁, _, rootPages, slots₁, t₁, phys₂, ptePage, slots₂, t₂, phys₃, sp, slots₃, _,
    hid, htake, hnext₁, hnext₂, rfl, rfl, rfl, ?_, rfl, rfl⟩
  simp [Principal.heldPages, GuestRootBuilder.new, PageVec.ofSeq, PageVec.pages,
    PageTable.validPages, PageTable.nodePages, PageTable.rootPages, hseq,
    SequentialPages.ofPage_drain]

omit [DataMeasure D] in
/-- `create_guest_root_builder` keeps the system isolated: on success the new builder holds the
four root pages and the PTE pool's page, and the caller the state page, all pulled from the
parent's window with the new id on top; every error leaves the pages where they were. -/
theorem createGuestRootBuilder_isolated {ps : List (Principal D)} {L : List Page4k} {i : Nat}
    {v v' : VmPages D} {fromAddr : PageAddr PageSize4k} {m m' : Machine}
    {r : Except Error (GuestRootBuilder D × Page4k)} (hw : ps[i]? = some (.vm v))
    (hs : (System.mk m ps L).Isolated)
    (h : v.createGuestRootBuilder fromAddr m = some (r, v', m')) :
    match r with
    | .ok (b, sp) => (System.mk m' (ps.set i (.vm v') ++ [.guestBuilder b]) (sp :: L)).Isolated
    | .error _ => (System.mk m' (ps.set i (.vm v')) L).Isolated := by
  have hi : i < ps.length := (List.getElem?_eq_some_iff.mp hw).1
  have hself : ps.set i (.vm v) = ps := set_of_getElem?_eq hw
  rcases createGuestRootBuilder_eq_some h with ⟨rfl, -, hown, hnext, e, rfl⟩ |
    ⟨phys₁, slots, rootPages, rest₁, t₁, phys₂, ptePage, rest₂, t₂, phys₃, sp, rest₃, b, hid, htake,
      hnext₁, hnext₂, hmeas, hmem, rfl, hheld, hbid, hnil⟩
  · rw [hself]
    exact hs.of_owners_eq hown hnext
  obtain ⟨-, hown, hnextId⟩ := PhysPages.addActiveGuest_eq_ok hid
  replace hbid : (Principal.guestBuilder b).root.owner = ⟨m.phys.nextId⟩ := hbid
  obtain ⟨root', meas'⟩ := v'
  obtain ⟨phys', mem'⟩ := m'
  dsimp only at hmeas hmem hnext₂
  subst hmeas hmem
  have hs₁ : (System.mk ⟨phys₁, m.mem⟩ (ps.set i (.vm ⟨v.root, v.measurement⟩)) L).Isolated := by
    rw [hself]
    exact hs.of_owners_eq hown (by dsimp only; omega)
  have hQ := isolated_keptByPull (L := L) hi v.measurement m.mem ⟨m.phys.nextId⟩ v.root.owner
    phys₁.nextId
  obtain ⟨hs₅, hh₅, ho₅, hn₅⟩ := cleanPages_induct hQ htake hnext₁ hnext₂
    ⟨hs₁, ⟨by simpa using hs₁.nodup, by simp⟩, rfl, rfl⟩
  refine hs₅.append (fun x hx => ?_) (by rw [hbid]; dsimp only; omega) ?_ ?_
    (by simp [Principal.root, PageTable.invalidPages, hnil])
  · rw [hbid]
    rcases List.mem_or_eq_of_mem_set hx with hx | rfl
    · exact fun h => by have := hs.idsLt x hx; rw [h] at this; exact Nat.lt_irrefl _ this
    · have := hs.idsLt _ (List.getElem?_mem hw)
      simp only [Principal.root] at this ⊢
      rw [ho₅]
      exact fun h => by rw [h] at this; exact Nat.lt_irrefl _ this
  · simpa [hheld] using hh₅.1
  · rw [hbid, hheld]
    simpa using hh₅.2

end System

end Salus
