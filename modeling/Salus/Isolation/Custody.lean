import Salus.Lifecycle
import Salus.Isolation.Step
import Salus.Reclaim

/-!
# Owner stacks as chains of custody

`set_page_owner` pushes the id of the principal a page goes to onto the page's owner stack
(`vm_pages.rs:72, 102, 127, 244, 271`), and `pop_owner` (`vm_pages.rs:151`) hands the page back to
the owner below. A stack is the page's chain of custody, top first. Over every run of admitted
calls (`Admitted`: the caller hands a builder only pages it owns, and lets `remove_4k_pages` pop
only the VM's own id), every chain is simple and runs through running VMs: no owner is on a stack
twice, and under the top there are only the hypervisor and running VMs, never a builder.

Every push puts a builder's id, or the fresh id of a new guest, over a page whose top is the VM
handing it on, as the isolation invariant says; the host's builder pushes its id only over pages
of the hypervisor alone, and only before any VM runs. So a successful `remove_4k_pages` hands
each of its pages back to a running VM or to the hypervisor, and leaves the VM's id on none of
their stacks.
-/

namespace Salus

variable {D : Type} [Inhabited D] [DataMeasure D]

namespace PhysPages

/-- Every owner stack is a chain of custody through the owners `V`: no owner is on it twice, and
under its top there are only the hypervisor and owners of `V`. -/
structure Chains (V : PageOwnerId → Prop) (pp : PhysPages) : Prop where
  nodup : ∀ a, (pp.owners a).Nodup
  below : ∀ a, ∀ x ∈ (pp.owners a).tail, x = .hypervisor ∨ V x

variable {V V' : PageOwnerId → Prop} {pp pp' : PhysPages}

theorem Chains.mono (h : pp.Chains V) (hV : ∀ x, V x → V' x) : pp.Chains V' :=
  ⟨h.nodup, fun a x hx => (h.below a x hx).imp_right (hV x)⟩

theorem Chains.of_owners_eq (h : pp.Chains V) (ho : pp'.owners = pp.owners) : pp'.Chains V :=
  ⟨fun a => by rw [ho]; exact h.nodup a, fun a => by rw [ho]; exact h.below a⟩

/-- A pop keeps every chain: the stack loses its top. -/
theorem Chains.pop (h : pp.Chains V) {addr : PageAddr PageSize4k} {top : PageOwnerId}
    (hp : pp.popOwner addr = .ok (top, pp')) : pp'.Chains V := by
  obtain ⟨below, -, hst, rfl⟩ := popOwner_eq_ok hp
  have hnd := h.nodup addr.bits
  have hb := h.below addr.bits
  rw [hst] at hnd hb
  refine ⟨fun a => ?_, fun a x hx => ?_⟩
  · simp only [setOwners_owners]
    split
    · exact hnd.of_cons
    · exact h.nodup a
  · simp only [setOwners_owners] at hx
    split at hx
    · exact hb x (List.mem_of_mem_tail hx)
    · exact h.below a x hx

/-- An owner that is not on top, not the hypervisor and not in `V` is on no chain. -/
theorem Chains.not_mem (h : pp.Chains V) {a : Nat} {top id : PageOwnerId}
    (htop : pp.owner a = some top) (hne : id ≠ top) (hhyp : id ≠ .hypervisor) (hid : ¬V id) :
    id ∉ pp.owners a := by
  obtain ⟨rest, hst⟩ := List.head?_eq_some_iff.mp htop
  rw [hst, List.mem_cons]
  rintro (rfl | hmem)
  · exact hne rfl
  · rcases h.below a id (by rw [hst]; exact hmem) with he | he
    exacts [hhyp he, hid he]

/-- A push keeps every chain when the pushed owner is not on the stack yet and the old top is
the hypervisor or in `V`. -/
theorem Chains.push (h : pp.Chains V) {addr : PageAddr PageSize4k} {id top : PageOwnerId}
    (hs : pp.setPageOwner addr id = .ok pp') (htop : pp.owner addr.bits = some top)
    (hV : top = .hypervisor ∨ V top) (hid : id ∉ pp.owners addr.bits) : pp'.Chains V := by
  obtain ⟨-, rfl⟩ := setPageOwner_eq_ok hs
  obtain ⟨rest, hst⟩ := List.head?_eq_some_iff.mp htop
  refine ⟨fun a => ?_, fun a x hx => ?_⟩
  · simp only [setOwners_owners]
    split
    · exact List.nodup_cons.mpr ⟨hid, h.nodup _⟩
    · exact h.nodup a
  · simp only [setOwners_owners] at hx
    split at hx
    · rw [List.tail_cons, hst, List.mem_cons] at hx
      rcases hx with rfl | hx
      · exact hV
      · exact h.below _ x (by rw [hst]; exact hx)
    · exact h.below a x hx

/-- Handing a page on from its top, an owner of `V`, to an owner that is neither that top, nor
the hypervisor, nor in `V`. -/
theorem Chains.handOn (h : pp.Chains V) {addr : PageAddr PageSize4k} {id top : PageOwnerId}
    (hs : pp.setPageOwner addr id = .ok pp') (htop : pp.owner addr.bits = some top) (hV : V top)
    (hne : id ≠ top) (hhyp : id ≠ .hypervisor) (hid : ¬V id) : pp'.Chains V :=
  h.push hs htop (.inr hV) (h.not_mem htop hne hhyp hid)

end PhysPages

omit [Inhabited D] [DataMeasure D] in
theorem Principal.MayBecome.isVm {p p' : Principal D} (h : p.MayBecome p') (hp : p.isVm = true) :
    p'.isVm = true := by
  cases p <;> cases p' <;> simp_all [Principal.MayBecome, Principal.isVm]

namespace System

/-- The owner `x` is the id of a running VM. -/
def IsVmId (s : System D) (x : PageOwnerId) : Prop :=
  ∃ w ∈ s.principals, w.isVm = true ∧ w.root.owner = x

/-- While the host's builder is a principal, it is the only one, and the caller holds only pages
of the hypervisor alone. -/
def HostAlone (s : System D) : Prop :=
  ∀ b, .hostBuilder b ∈ s.principals →
    s.principals = [.hostBuilder b] ∧ ∀ p ∈ s.loose, s.machine.phys.owners p.bits = [.hypervisor]

/-- What every admitted run keeps of the owner stacks: they are chains of custody through the
running VMs; no principal has the hypervisor's id, which is below the next id; and the host's
builder runs alone. -/
structure Custody (s : System D) : Prop where
  chains : s.machine.phys.Chains s.IsVmId
  hyp : PageOwnerId.hypervisor ∉ s.ids
  nextId_pos : 0 < s.machine.phys.nextId
  host : s.HostAlone

/-- A running VM is still one, with its id, after any call. -/
theorem isVmId_step {s s' : System D} {c : Call} {r : Except Error Unit}
    (h : s.step c = some (s', r)) {x : PageOwnerId} (hx : s.IsVmId x) : s'.IsVmId x := by
  obtain ⟨w, hw, hvm, rfl⟩ := hx
  obtain ⟨k, hk⟩ := List.getElem?_of_mem hw
  obtain ⟨w', hk', hadv⟩ := advances_step h hk
  exact ⟨w', List.getElem?_mem hk', hadv.becomes.isVm hvm, hadv.owner⟩

section HostAlone

omit [Inhabited D] [DataMeasure D]

theorem hostAlone_of_not_mem {s : System D} (h : ∀ b, .hostBuilder b ∉ s.principals) :
    s.HostAlone :=
  fun b hb => absurd hb (h b)

/-- Once a principal other than the host's builder exists, there is no host's builder. -/
theorem Custody.no_hostBuilder {s : System D} (hc : s.Custody) {k : Nat} {w : Principal D}
    (hk : s.principals[k]? = some w) (hw : ∀ b, w ≠ .hostBuilder b) (b : HostRootBuilder D) :
    .hostBuilder b ∉ s.principals := fun hb => by
  have hmem := List.getElem?_mem hk
  rw [(hc.host b hb).1, List.mem_singleton] at hmem
  exact hw b hmem

theorem not_mem_set {ps : List (Principal D)} {i : Nat} {q : Principal D}
    (hps : ∀ b, .hostBuilder b ∉ ps) (hq : ∀ b, q ≠ .hostBuilder b) (b : HostRootBuilder D) :
    .hostBuilder b ∉ ps.set i q := fun hb =>
  (List.mem_or_eq_of_mem_set hb).elim (hps b) fun he => hq b he.symm

end HostAlone

/-! ## What each loop keeps -/

section Loops

variable {V : PageOwnerId → Prop}

omit [Inhabited D] in
/-- The host's loop pushes the host's id over pages of the hypervisor alone, each once, and
leaves the pages `X` the caller keeps alone. -/
theorem chains_keptByMap (X : List Page4k) (o : PageOwnerId) (ho : o ≠ .hypervisor) :
    KeptByMap fun rest root _ phys =>
      (∀ q ∈ rest ++ X, phys.owners q.bits = [.hypervisor]) ∧ (rest ++ X).Nodup ∧
        phys.Chains V ∧ root.owner = o where
  map := by
    intro page pages root pte phys phys' a ⟨hst, hnd, hch, hown⟩ hset
    obtain ⟨hpage, hnd'⟩ := List.nodup_cons.mp hnd
    have htop : phys.owner page.addr.bits = some .hypervisor := by
      show (phys.owners page.bits).head? = _
      rw [hst page (List.mem_cons_self _ _)]
      rfl
    refine ⟨fun q hq => ?_, hnd', hch.push hset htop (.inl rfl) ?_,
      (root.mapPage4k_spec a page pte).2.1.trans hown⟩
    · obtain ⟨-, rfl⟩ := PhysPages.setPageOwner_eq_ok hset
      have hne : q.bits ≠ page.addr.bits := fun he => hpage (Page.ext_bits he ▸ hq)
      simpa [hne] using hst q (List.mem_cons_of_mem _ hq)
    · show root.owner ∉ phys.owners page.bits
      rw [hst page (List.mem_cons_self _ _), List.mem_singleton, hown]
      exact ho
  drop := by
    intro pages root pte phys ⟨hst, hnd, hch, hown⟩
    exact ⟨fun q hq => hst q (List.mem_append_right _ hq), (List.nodup_append.mp hnd).2.1, hch,
      hown⟩

omit [Inhabited D] [DataMeasure D] in
/-- The hand-overs push the builder's id `b` over pages whose top is the parent, `o`. -/
theorem chains_keptByHandOver {ps : List (Principal D)} {L : List Page4k} {i j : Nat}
    (hij : i ≠ j) (hi : i < ps.length) (hj : j < ps.length) (meas : D) {o b : PageOwnerId}
    (hV : V o) (hne : b ≠ o) (hhyp : b ≠ .hypervisor) (hb : ¬V b) :
    KeptByHandOver fun t dest m =>
      (System.mk m (withPair ps i j (.vm ⟨t, meas⟩) (.guestBuilder dest)) L).Isolated ∧
        t.owner = o ∧ dest.root.owner = b ∧ m.phys.Chains V where
  drop he hq m' hm := ⟨(isolated_keptByHandOver hij hi hj meas).drop he hq.1 m' hm, hq.2.1,
    hq.2.2.1, hq.2.2.2.of_owners_eq (by rw [hm])⟩
  put := by
    intro t dest dest' m g p phys he ⟨hs, ho, hdest, hch⟩ hset hpl m' hm
    have htop : m.phys.owner p.addr.bits = some o :=
      ho ▸ (hs.invalidate (withPair_getElem?_left hij hi) he).2.2
    have hset' : m.phys.setPageOwner p.addr b = .ok phys := hdest ▸ hset
    exact ⟨(isolated_keptByHandOver hij hi hj meas).put he hs hset hpl m' hm, ho,
      hpl.owner.trans hdest, hm ▸ hch.handOn hset' htop hV hne hhyp hb⟩

omit [Inhabited D] [DataMeasure D] in
/-- The pulls of `create_guest_root_builder` push the fresh id `id` over pages whose top is the
parent, `o`. -/
theorem chains_keptByPull {ps : List (Principal D)} {L : List Page4k} {i : Nat}
    (hi : i < ps.length) (meas : D) (mem : Memory) {id o : PageOwnerId} (n : Nat) (hV : V o)
    (hne : id ≠ o) (hhyp : id ≠ .hypervisor) (hid : ¬V id) :
    KeptByPull id fun hand t phys =>
      ((System.mk ⟨phys, mem⟩ (ps.set i (.vm ⟨t, meas⟩)) L).Isolated ∧
        Pulled (System.mk ⟨phys, mem⟩ (ps.set i (.vm ⟨t, meas⟩)) L) id hand ∧ t.owner = o ∧
        phys.nextId = n) ∧ phys.Chains V where
  pull he hq hset := by
    have htop := (hq.1.1.invalidate (List.getElem?_set_self hi) he).2.2
    rw [hq.1.2.2.1] at htop
    exact ⟨(isolated_keptByPull hi meas mem id o n).pull he hq.1 hset,
      hq.2.handOn hset htop hV hne hhyp hid⟩

omit [Inhabited D] [DataMeasure D] in
/-- The slots of `remove_4k_pages` only pop. -/
theorem chains_keptByUnmap (ownerId : PageOwnerId) :
    KeptByUnmap ownerId fun _ _ m => m.phys.Chains V where
  pop _ hq hpop := hq.pop hpop
  stop _ hq hphys := by
    rcases hphys with rfl | ⟨_, hpop⟩
    exacts [hq, hq.pop hpop]

end Loops

/-! ## What each call keeps -/

section Calls

variable {m : Machine} {ps : List (Principal D)} {L : List Page4k} {s' : System D}
  {r : Except Error Unit} {i j : Nat} {fromAddr : PageAddr PageSize4k} {count : Nat}

omit [Inhabited D] in
/-- The host builder's calls push its id over pages of the hypervisor alone that the caller
holds, and leave the rest of them alone. -/
theorem Custody.hostCall (hs : (System.mk m ps L).Isolated) (hc : (System.mk m ps L).Custody)
    {pages : List Page4k} {toAddr : PageAddr PageSize4k}
    {f : HostRootBuilder D → PhysPages → Option (HostRootBuilder D × PhysPages)}
    (hf : ∀ b phys b' phys', f b phys = some (b', phys') → ∃ d d' : D,
      HostRootBuilder.add4kDataPagesLoop pages (some toAddr.bits) d b.root b.ptePages phys =
        some (d', b'.root, b'.ptePages, phys'))
    (h : (System.mk m ps L).hostCall i pages f = some (s', r)) :
    s'.machine.phys.Chains (System.mk m ps L).IsVmId ∧ s'.HostAlone := by
  obtain ⟨b, b', phys', hb, hsub, hfb, rfl⟩ := hostCall_eq_some h
  obtain ⟨_, _, hloop⟩ := hf _ _ _ _ hfb
  obtain ⟨hps, hloose⟩ := hc.host b (List.getElem?_mem hb)
  have hperm : (pages ++ L.diff pages).Perm L :=
    List.subperm_append_diff_self_of_count_le fun x _ => hsub.count_le x
  have hhyp : b.root.owner ≠ .hypervisor := fun he =>
    hc.hyp (he ▸ List.mem_map_of_mem (·.root.owner) (List.getElem?_mem hb))
  obtain ⟨hst, -, hch, -⟩ := add4kDataPagesLoop_induct
    (chains_keptByMap (V := (System.mk m ps L).IsVmId) (L.diff pages) _ hhyp) pages hloop
    ⟨fun q hq => hloose q (hperm.subset hq), hperm.nodup_iff.mpr (List.nodup_append.mp hs.nodup).2.1,
      hc.chains, rfl⟩
  refine ⟨hch, fun b'' hb'' => ⟨?_, hst⟩⟩
  subst hps
  obtain rfl : i = 0 := by simpa using (List.getElem?_eq_some_iff.mp hb).1
  simpa [eq_comm] using hb''

/-- `create_host` keeps the machine and turns the host's builder into the host. -/
theorem Custody.createHost (hc : (System.mk m ps L).Custody)
    (h : (System.mk m ps L).step (.createHost i) = some (s', r)) :
    s'.machine.phys.Chains (System.mk m ps L).IsVmId ∧ s'.HostAlone := by
  obtain ⟨b, hb, rfl⟩ := step_createHost h
  obtain ⟨hps, -⟩ := hc.host b (List.getElem?_mem hb)
  subst hps
  obtain rfl : i = 0 := by simpa using (List.getElem?_eq_some_iff.mp hb).1
  exact ⟨hc.chains, hostAlone_of_not_mem fun b' hb' => by simp at hb'⟩

omit [DataMeasure D] in
/-- `create_guest_root_builder` pushes the fresh id over the pages it pulls, whose top is the
parent. -/
theorem Custody.createGuestRootBuilder_chains (hs : (System.mk m ps L).Isolated)
    (hc : (System.mk m ps L).Custody) {v v' : VmPages D} {m' : Machine}
    {r' : Except Error (GuestRootBuilder D × Page4k)} (hw : ps[i]? = some (.vm v))
    (h : v.createGuestRootBuilder fromAddr m = some (r', v', m')) :
    m'.phys.Chains (System.mk m ps L).IsVmId := by
  have hi : i < ps.length := (List.getElem?_eq_some_iff.mp hw).1
  rcases createGuestRootBuilder_eq_some h with ⟨-, -, hown, -, -⟩ |
    ⟨phys₁, slots, rootPages, rest₁, t₁, phys₂, ptePage, rest₂, t₂, phys₃, sp, rest₃, b, hid, htake,
      hnext₁, hnext₂, -, -, -, -, -, -⟩
  · exact hc.chains.of_owners_eq hown
  obtain ⟨-, hown, hnextId⟩ := PhysPages.addActiveGuest_eq_ok hid
  have hlt := hs.idsLt _ (List.getElem?_mem hw)
  have hs₁ : (System.mk ⟨phys₁, m.mem⟩ (ps.set i (.vm ⟨v.root, v.measurement⟩)) L).Isolated := by
    rw [set_of_getElem?_eq hw]
    exact hs.of_owners_eq hown (by dsimp only; omega)
  have hfresh : ¬(System.mk m ps L).IsVmId ⟨m.phys.nextId⟩ := fun ⟨w, hw', _, he⟩ => by
    have := hs.idsLt w hw'
    rw [he] at this
    exact Nat.lt_irrefl _ this
  have hQ := chains_keptByPull (L := L) hi v.measurement m.mem phys₁.nextId
    ⟨.vm v, List.getElem?_mem hw, rfl, rfl⟩ (fun he => by rw [← he] at hlt; exact Nat.lt_irrefl _ hlt)
    (fun he : (⟨m.phys.nextId⟩ : PageOwnerId) = .hypervisor =>
      Nat.ne_of_lt hc.nextId_pos (congrArg PageOwnerId.raw he).symm) hfresh
  exact (cleanPages_induct hQ htake hnext₁ hnext₂
    ⟨⟨hs₁, ⟨by simpa using hs₁.nodup, by simp⟩, rfl, rfl⟩, hc.chains.of_owners_eq hown⟩).2

omit [Inhabited D] [DataMeasure D] in
/-- The ids of a VM and of a guest builder beside it: the VM's is a running VM's, and the
builder's is neither the VM's, nor the hypervisor's, nor a running VM's. -/
theorem Custody.builder_ids (hs : (System.mk m ps L).Isolated) (hc : (System.mk m ps L).Custody)
    {v : VmPages D} {b : GuestRootBuilder D} (hv : ps[i]? = some (.vm v))
    (hb : ps[j]? = some (.guestBuilder b)) :
    (System.mk m ps L).IsVmId v.root.owner ∧ b.root.owner ≠ v.root.owner ∧
      b.root.owner ≠ .hypervisor ∧ ¬(System.mk m ps L).IsVmId b.root.owner := by
  have hvm := List.getElem?_mem hv
  have hbm := List.getElem?_mem hb
  refine ⟨⟨_, hvm, rfl, rfl⟩, fun he => ?_, fun he => hc.hyp ?_, fun ⟨w, hw, hw', he⟩ => ?_⟩
  · cases eq_of_owner_eq hs hbm hvm he
  · exact he ▸ List.mem_map_of_mem (·.root.owner) hbm
  · cases eq_of_owner_eq hs hw hbm he
    cases hw'

omit [Inhabited D] [DataMeasure D] in
/-- The loops of `add_pte_pages_builder` and `add_4k_pages_builder` push the builder's id over
pages whose top is the parent. -/
theorem Custody.handOver (hs : (System.mk m ps L).Isolated) (hc : (System.mk m ps L).Custody)
    {v v' : VmPages D} {b b' : GuestRootBuilder D} {m' : Machine} (hv : ps[i]? = some (.vm v))
    (hb : ps[j]? = some (.guestBuilder b))
    (hloop : ∀ Q : PageTable → GuestRootBuilder D → Machine → Prop, KeptByHandOver Q →
      Q v.root b m → Q v'.root b' m') :
    m'.phys.Chains (System.mk m ps L).IsVmId ∧
      (System.mk m' ((ps.set i (.vm v')).set j (.guestBuilder b')) L).HostAlone := by
  obtain ⟨hV, hne, hhyp, hbV⟩ := hc.builder_ids hs hv hb
  have hs' : (System.mk m (withPair ps i j (.vm v) (.guestBuilder b)) L).Isolated := by
    rwa [withPair_self hv hb]
  exact ⟨(hloop _ (chains_keptByHandOver (ne_of_vm_guestBuilder hv hb)
    (List.getElem?_eq_some_iff.mp hv).1 (List.getElem?_eq_some_iff.mp hb).1 v.measurement hV hne
    hhyp hbV) ⟨hs', rfl, rfl, hc.chains⟩).2.2.2, hostAlone_of_not_mem
    (not_mem_set (not_mem_set (hc.no_hostBuilder hv fun _ => nofun) fun _ => nofun) fun _ => nofun)⟩

theorem Custody.addPtePagesBuilder (hs : (System.mk m ps L).Isolated)
    (hc : (System.mk m ps L).Custody)
    (h : (System.mk m ps L).step (.addPtePagesBuilder i fromAddr count j) = some (s', r)) :
    s'.machine.phys.Chains (System.mk m ps L).IsVmId ∧ s'.HostAlone := by
  obtain ⟨v, b, v', b', m', hv, hb, hcall, rfl⟩ := step_addPtePagesBuilder h
  obtain ⟨slots, _, hl, -⟩ := VmPages.addPtePagesBuilder_eq_loop hcall
  exact hc.handOver hs hv hb fun _ hQ hq => addPtePagesLoop_induct hQ slots hl hq

theorem Custody.add4kPagesBuilder (hs : (System.mk m ps L).Isolated)
    (hc : (System.mk m ps L).Custody) {toAddr : PageAddr PageSize4k} {measurePreserve : Bool}
    (h : (System.mk m ps L).step (.add4kPagesBuilder i fromAddr count j toAddr measurePreserve) =
      some (s', r)) :
    s'.machine.phys.Chains (System.mk m ps L).IsVmId ∧ s'.HostAlone := by
  obtain ⟨v, b, _, v', b', m', hv, hb, hcall, rfl⟩ := step_add4kPagesBuilder h
  obtain ⟨slots, _, hl, -⟩ := VmPages.add4kPagesBuilder_eq_loop hcall
  exact hc.handOver hs hv hb fun _ hQ hq =>
    add4kPagesBuilderLoop_induct hQ measurePreserve slots hl hq

theorem Custody.createGuestRootBuilder (hs : (System.mk m ps L).Isolated)
    (hc : (System.mk m ps L).Custody)
    (h : (System.mk m ps L).step (.createGuestRootBuilder i fromAddr) = some (s', r)) :
    s'.machine.phys.Chains (System.mk m ps L).IsVmId ∧ s'.HostAlone := by
  obtain ⟨v, r', v', m', hv, hcall, h⟩ := step_createGuestRootBuilder h
  have hch := hc.createGuestRootBuilder_chains hs hv hcall
  have hno := not_mem_set (i := i) (hc.no_hostBuilder hv fun _ => nofun)
    (fun _ => nofun : ∀ b, Principal.vm v' ≠ .hostBuilder b)
  rcases r' with _ | ⟨b, sp⟩ <;> (dsimp only at h; subst h)
  · exact ⟨hch, hostAlone_of_not_mem hno⟩
  · refine ⟨hch, hostAlone_of_not_mem fun b' hb' => ?_⟩
    rcases List.mem_append.mp hb' with hb' | hb'
    · exact hno b' hb'
    · simp at hb'

theorem Custody.remove4kPages (hc : (System.mk m ps L).Custody)
    (h : (System.mk m ps L).step (.remove4kPages i fromAddr count) = some (s', r)) :
    s'.machine.phys.Chains (System.mk m ps L).IsVmId ∧ s'.HostAlone := by
  obtain ⟨v, r', v', m', hv, hcall, rfl⟩ := step_remove4kPages h
  obtain ⟨slots, _, hl, -, -⟩ := VmPages.remove4kPages_eq_loop hcall
  exact ⟨remove4kPagesLoop_induct (chains_keptByUnmap _) slots hl hc.chains,
    hostAlone_of_not_mem (not_mem_set (hc.no_hostBuilder hv fun _ => nofun) fun _ => nofun)⟩

omit [Inhabited D] [DataMeasure D] in
/-- A direct call on a guest builder leaves the owner stacks alone. -/
theorem Custody.builderCall (hc : (System.mk m ps L).Custody) {page : Page4k}
    {f : GuestRootBuilder D → Except Error Unit × GuestRootBuilder D}
    (h : (System.mk m ps L).builderCall j page f = some (s', r)) :
    s'.machine.phys.Chains (System.mk m ps L).IsVmId ∧ s'.HostAlone := by
  obtain ⟨b, hb, -, rfl⟩ := builderCall_eq_some h
  exact ⟨hc.chains,
    hostAlone_of_not_mem (not_mem_set (hc.no_hostBuilder hb fun _ => nofun) fun _ => nofun)⟩

theorem Custody.createPages (hc : (System.mk m ps L).Custody)
    (h : (System.mk m ps L).step (.createPages j) = some (s', r)) :
    s'.machine.phys.Chains (System.mk m ps L).IsVmId ∧ s'.HostAlone := by
  obtain ⟨b, hb, rfl⟩ := step_createPages h
  exact ⟨hc.chains,
    hostAlone_of_not_mem (not_mem_set (hc.no_hostBuilder hb fun _ => nofun) fun _ => nofun)⟩

end Calls

/-- Every call from an isolated state keeps the custody invariant. -/
theorem Custody.step {s s' : System D} {c : Call} {r : Except Error Unit} (hs : s.Isolated)
    (hc : s.Custody) (h : s.step c = some (s', r)) : s'.Custody := by
  have key : s'.machine.phys.Chains s.IsVmId ∧ s'.HostAlone := by
    obtain ⟨m, ps, L⟩ := s
    cases c with
    | add4kDataPages i toAddr pages =>
      exact hc.hostCall hs (fun _ _ _ _ hf => ⟨_, _, add4kDataPages_loop hf⟩) h
    | add4kPages i toAddr pages =>
      exact hc.hostCall hs (fun _ _ _ _ hf => ⟨default, add4kPages_loop default hf⟩) h
    | createHost i => exact hc.createHost h
    | createGuestRootBuilder i fromAddr => exact hc.createGuestRootBuilder hs h
    | addPtePagesBuilder i fromAddr count j => exact hc.addPtePagesBuilder hs h
    | add4kPagesBuilder i fromAddr count j toAddr measurePreserve =>
      exact hc.add4kPagesBuilder hs h
    | remove4kPages i fromAddr count => exact hc.remove4kPages h
    | addPtePage j page => exact hc.builderCall h
    | addDataPage j gpa page =>
      exact hc.builderCall
        (show (System.mk m ps L).builderCall j page (fun b => b.addDataPage gpa page) = _ from h)
    | addZeroPage j gpa page =>
      exact hc.builderCall
        (show (System.mk m ps L).builderCall j page (fun b => b.addZeroPage gpa page) = _ from h)
    | createPages j => exact hc.createPages h
  have hk := keepsIds_step h
  refine ⟨key.1.mono fun _ => isVmId_step h, ?_, Nat.lt_of_lt_of_le hc.nextId_pos hk.nextId_le,
    key.2⟩
  rcases hk.ids with he | ⟨-, he⟩ <;> rw [he]
  · exact hc.hyp
  · simp only [List.mem_append, List.mem_singleton, not_or]
    exact ⟨hc.hyp, fun he' => Nat.ne_of_lt hc.nextId_pos (congrArg PageOwnerId.raw he')⟩

omit [DataMeasure D] in
/-- `from_hyp_mem` gives every page it hands out the hypervisor alone, and starts with the host's
builder alone. -/
theorem boot_custody {hm : HypMem} {s : System D} (h : boot hm = some s) : s.Custody := by
  obtain ⟨rootSeq, -, rfl⟩ := boot_eq_some h
  refine ⟨⟨fun a => ?_, fun a x hx => ?_⟩, by simp [ids, Principal.root, PageOwnerId.hypervisor,
    PageOwnerId.host], Nat.zero_lt_two, fun b hb => ⟨by rw [List.mem_singleton.mp hb], fun p hp => ?_⟩⟩
  · simp only [HypMem.physPages]
    split <;> simp
  · simp only [HypMem.physPages] at hx
    split at hx <;> simp at hx
  · exact if_pos (List.mem_map_of_mem _ (List.mem_append_right _ hp))

end System

/-- Every state reached by admitted calls keeps the custody invariant. -/
theorem Reachable.custody {boot : HypMem} {s : System D} (h : Reachable boot Admitted s) :
    s.Custody := by
  induction h with
  | init hb => exact System.boot_custody hb
  | step hr _ hs ih => exact ih.step hr.isolated hs

/-- In every state reached from `from_hyp_mem` by admitted calls, every owner stack is a simple
chain of custody: no owner is on it twice, and under its top there are only the hypervisor and
running VMs, never a builder. -/
theorem reachable_owner_stacks_are_chains {boot : HypMem} {s : System D}
    (h : Reachable boot Admitted s) :
    ∀ a, (s.machine.phys.owners a).Nodup ∧ ∀ x ∈ (s.machine.phys.owners a).tail,
      x = .hypervisor ∨ ∃ w ∈ s.principals, w.isVm = true ∧ w.root.owner = x :=
  fun a => ⟨h.custody.chains.nodup a, h.custody.chains.below a⟩

/-- After the small machine's admitted run, the page the guest maps at GPA 0 has the guest, the
host and the hypervisor on its stack, each once, and every stack is a chain of custody. -/
theorem smallCalls_owner_stacks_are_chains :
    ∃ s : System PageLog, Reachable smallHypMem Admitted s ∧
      s.machine.phys.owners 0x8001C000 = [⟨2⟩, ⟨1⟩, ⟨0⟩] ∧
      ∀ a, (s.machine.phys.owners a).Nodup ∧ ∀ x ∈ (s.machine.phys.owners a).tail,
        x = .hypervisor ∨ ∃ w ∈ s.principals, w.isVm = true ∧ w.root.owner = x := by
  obtain ⟨s, hs, hp⟩ := exists_reachable_of_allowed_run smallHypMem smallCalls smallCalls_admitted
    (fun s : System PageLog => s.machine.phys.owners 0x8001C000 == [⟨2⟩, ⟨1⟩, ⟨0⟩]) (by decide)
  exact ⟨s, hs, beq_iff_eq.mp hp, reachable_owner_stacks_are_chains hs⟩

/-- In every state reached by admitted calls, when `remove_4k_pages` returns `Ok` on the
machine, the table's owner id is on no owner stack of the pages of the window's leaves, and
every owner left on those stacks is the hypervisor or a running VM: each page is back with a
running VM or the hypervisor. -/
theorem remove4kPages_relinquishes {boot : HypMem} {s : System D} (h : Reachable boot Admitted s)
    {k count : Nat} {v v' : VmPages D} {fromAddr : PageAddr PageSize4k} {m' : Machine}
    (hr : v.remove4kPages fromAddr count s.machine = (.ok k, v', m')) :
    ∀ p ∈ v.root.leavesIn (PageTable.slots fromAddr.bits count),
      v.pageOwnerId ∉ m'.phys.owners p.bits ∧ ∀ x ∈ m'.phys.owners p.bits,
        x = .hypervisor ∨ ∃ w ∈ s.principals, w.isVm = true ∧ w.root.owner = x := by
  intro p hp
  obtain ⟨n, hst⟩ := (remove4kPages_eq_ok hr).2.2.2.1.owners_of_mem hp
  have hnd := h.custody.chains.nodup p.bits
  have hb := h.custody.chains.below p.bits
  rw [hst] at hnd hb
  exact ⟨fun hm => (List.nodup_cons.mp hnd).1 (List.mem_append_right _ hm),
    fun x hx => hb x (List.mem_append_right _ hx)⟩

/-- In the small machine, once the guest's builder has become its `VmPages`, the guest's
`remove_4k_pages` over its GPA `0` gives the page at `0x8001_C000` back to the host, and the
guest's id is gone from that page's stack. -/
theorem remove4kPages_relinquishes_small :
    ∃ s : System PageLog, Reachable smallHypMem Admitted s ∧ ∃ v v' m',
      s.principals[1]? = some (.vm v) ∧
      v.remove4kPages ⟨0, by decide, by decide⟩ 1 s.machine = (.ok 1, v', m') ∧
      m'.phys.owners 0x8001C000 = [⟨1⟩, ⟨0⟩] ∧
      ∀ p ∈ v.root.leavesIn (PageTable.slots 0 1),
        v.pageOwnerId ∉ m'.phys.owners p.bits ∧ ∀ x ∈ m'.phys.owners p.bits,
          x = .hypervisor ∨ ∃ w ∈ s.principals, w.isVm = true ∧ w.root.owner = x := by
  obtain ⟨s, hs, hp⟩ := exists_reachable_of_allowed_run smallHypMem (smallCalls ++ [.createPages 1])
    (fun s c hc => (List.mem_append.mp hc).elim (smallCalls_admitted s c) fun hc => by
      rw [List.mem_singleton.mp hc]; trivial)
    (fun s : System PageLog =>
      match s.principals[1]? with
      | some (Principal.vm v) =>
        match v.remove4kPages ⟨0, by decide, by decide⟩ 1 s.machine with
        | (.ok 1, _, m') => m'.phys.owners 0x8001C000 == [⟨1⟩, ⟨0⟩]
        | _ => false
      | _ => false) (by decide)
  refine ⟨s, hs, ?_⟩
  revert hp
  split
  · rename_i v hv
    split
    · rename_i v' m' hr
      intro hown
      exact ⟨v, v', m', hv, hr, by simpa using hown, remove4kPages_relinquishes hs hr⟩
    · nofun
  · nofun

end Salus
