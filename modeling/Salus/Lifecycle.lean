import Salus.Isolation.Ids

/-!
# The principals' lifecycle

Every call of `vm_pages.rs` acts on the principals in place. `create_host`
(`vm_pages.rs:285-292`) and `create_pages` (`vm_pages.rs:348-353`) consume a builder and give
back the VM it built. `create_guest_root_builder` (`vm_pages.rs:55-83`) appends a builder, with
the id `add_active_guest` hands out, and is the only call that adds a principal; every other call
updates one VM's table or one builder. No call turns a VM back into a builder, and each
`VmPages` call (`vm_pages.rs:55-158`) rebuilds its VM as `{ self with root }`. A VM's
measurement, fixed when its builder is consumed, therefore never changes again.

Over any run, each principal keeps its place and its owner id, moves at most from builder to
VM, and a VM's measurement is final; and the ids of the principals stay distinct, each below
the tracker's next id, which only `create_guest_root_builder` takes.
-/

namespace Salus

variable {D : Type} [Inhabited D] [DataMeasure D]

/-- What a principal may become over a run, its owner id aside: a builder stays a builder of
its kind or becomes a VM, and a VM stays a VM with the same measurement. -/
def Principal.MayBecome : Principal D → Principal D → Prop
  | .hostBuilder _, .hostBuilder _ => True
  | .hostBuilder _, .vm _ => True
  | .guestBuilder _, .guestBuilder _ => True
  | .guestBuilder _, .vm _ => True
  | .vm v, .vm v' => v'.measurement = v.measurement
  | _, _ => False

/-- What a principal may become over a run: `MayBecome`, with the same owner id. -/
structure Principal.Advances (p p' : Principal D) : Prop where
  owner : p'.root.owner = p.root.owner
  becomes : p.MayBecome p'

namespace Principal

omit [Inhabited D] [DataMeasure D]

theorem MayBecome.refl : ∀ p : Principal D, p.MayBecome p
  | .hostBuilder _ | .guestBuilder _ => trivial
  | .vm _ => rfl

theorem MayBecome.trans {p p' p'' : Principal D} (h₁ : p.MayBecome p') (h₂ : p'.MayBecome p'') :
    p.MayBecome p'' := by
  cases p <;> cases p' <;> cases p'' <;> simp_all only [MayBecome]

end Principal

namespace System

/-- The principals `ps'` keep every principal of `ps` at its index, each one advanced by
`MayBecome`; `ps'` may have more. -/
def Grows (ps ps' : List (Principal D)) : Prop :=
  ∀ (k : Nat) (p : Principal D), ps[k]? = some p → ∃ p', ps'[k]? = some p' ∧ p.MayBecome p'

section Grows

omit [Inhabited D] [DataMeasure D]

variable {ps ps' ps'' : List (Principal D)}

theorem Grows.refl (ps : List (Principal D)) : Grows ps ps :=
  fun _ p hk => ⟨p, hk, .refl p⟩

theorem Grows.trans (h₁ : Grows ps ps') (h₂ : Grows ps' ps'') : Grows ps ps'' := by
  intro k p hk
  obtain ⟨p', hk', hp'⟩ := h₁ k p hk
  obtain ⟨p'', hk'', hp''⟩ := h₂ k p' hk'
  exact ⟨p'', hk'', hp'.trans hp''⟩

theorem Grows.append (h : Grows ps ps') (l : List (Principal D)) : Grows ps (ps' ++ l) := by
  intro k p hk
  obtain ⟨p', hk', hp'⟩ := h k p hk
  exact ⟨p', by rw [List.getElem?_append_left (List.getElem?_eq_some_iff.mp hk').1, hk'], hp'⟩

/-- Replacing the principal at `i` by one it may become. -/
theorem grows_set {i : Nat} {p q : Principal D} (hi : ps[i]? = some p) (hq : p.MayBecome q) :
    Grows ps (ps.set i q) := by
  intro k p₀ hk
  rw [List.getElem?_set]
  split
  · subst k
    rw [hi] at hk
    cases hk
    exact ⟨q, by rw [if_pos (List.getElem?_eq_some_iff.mp hi).1], hq⟩
  · exact ⟨p₀, hk, .refl p₀⟩

/-- A VM call with a builder: the VM at `i` and the builder at `j` replaced. -/
theorem grows_withPair {i j : Nat} {v v' : VmPages D} {b b' : GuestRootBuilder D}
    (hv : ps[i]? = some (.vm v)) (hb : ps[j]? = some (.guestBuilder b))
    (hmeas : v'.measurement = v.measurement) :
    Grows ps ((ps.set i (.vm v')).set j (.guestBuilder b')) := by
  refine (grows_set (q := .vm v') hv hmeas).trans (grows_set (p := .guestBuilder b) ?_ trivial)
  rwa [List.getElem?_set_ne (ne_of_vm_guestBuilder hv hb)]

end Grows

omit [DataMeasure D] in
theorem createGuestRootBuilder_measurement {v v' : VmPages D} {fromAddr : PageAddr PageSize4k}
    {m m' : Machine} {r : Except Error (GuestRootBuilder D × Page4k)}
    (h : v.createGuestRootBuilder fromAddr m = some (r, v', m')) :
    v'.measurement = v.measurement := by
  rcases createGuestRootBuilder_eq_some h with ⟨rfl, -⟩ | ⟨-, -, -, -, -, -, -, -, -, -, -, -, -, -,
    -, -, -, hmeas, -⟩
  · rfl
  · exact hmeas

/-- What one call does to the principals: it keeps each at its index, advanced by `MayBecome`,
and only `create_guest_root_builder` adds one. Every other call, and a failed one, leaves as
many principals as before; a successful `create_guest_root_builder` appends one guest builder,
whose id is the tracker's next id. -/
theorem step_principals {s s' : System D} {c : Call} {r : Except Error Unit}
    (h : s.step c = some (s', r)) :
    Grows s.principals s'.principals ∧
      (s'.principals.length = s.principals.length ∨
        (∃ i fromAddr, c = .createGuestRootBuilder i fromAddr) ∧
          s'.principals.length = s.principals.length + 1 ∧ ∃ b : GuestRootBuilder D,
            s'.principals[s.principals.length]? = some (.guestBuilder b) ∧
            b.root.owner = ⟨s.machine.phys.nextId⟩) := by
  obtain ⟨m, ps, L⟩ := s
  cases c with
  | add4kDataPages i toAddr pages =>
    obtain ⟨b, b', phys', hb, -, -, rfl⟩ := hostCall_eq_some h
    exact ⟨grows_set hb trivial, .inl (List.length_set ..)⟩
  | add4kPages i toAddr pages =>
    obtain ⟨b, b', phys', hb, -, -, rfl⟩ := hostCall_eq_some h
    exact ⟨grows_set hb trivial, .inl (List.length_set ..)⟩
  | createHost i =>
    obtain ⟨b, hb, rfl⟩ := step_createHost h
    exact ⟨grows_set hb trivial, .inl (List.length_set ..)⟩
  | createGuestRootBuilder i fromAddr =>
    obtain ⟨v, r', v', m', hv, hc, hs⟩ := step_createGuestRootBuilder h
    have hg := grows_set (q := .vm v') hv (createGuestRootBuilder_measurement hc)
    rcases r' with e | ⟨b, sp⟩ <;> subst hs
    · exact ⟨hg, .inl (List.length_set ..)⟩
    · refine ⟨hg.append _, .inr ⟨⟨i, fromAddr, rfl⟩, by simp, b, by simp, ?_⟩⟩
      exact ((createGuestRootBuilder_owner hc).2.2 b sp rfl).1
  | addPtePagesBuilder i fromAddr count j =>
    obtain ⟨v, b, v', b', m', hv, hb, hc, rfl⟩ := step_addPtePagesBuilder h
    obtain ⟨-, -, -, hmeas⟩ := VmPages.addPtePagesBuilder_eq_loop hc
    exact ⟨grows_withPair hv hb hmeas, .inl (by simp)⟩
  | add4kPagesBuilder i fromAddr count j toAddr measurePreserve =>
    obtain ⟨v, b, r', v', b', m', hv, hb, hc, rfl⟩ := step_add4kPagesBuilder h
    obtain ⟨-, -, -, hmeas⟩ := VmPages.add4kPagesBuilder_eq_loop hc
    exact ⟨grows_withPair hv hb hmeas, .inl (by simp)⟩
  | remove4kPages i fromAddr count =>
    obtain ⟨v, r', v', m', hv, hc, rfl⟩ := step_remove4kPages h
    obtain ⟨-, -, -, hmeas, -⟩ := VmPages.remove4kPages_eq_loop hc
    exact ⟨grows_set (q := .vm v') hv hmeas, .inl (List.length_set ..)⟩
  | addPtePage j page =>
    obtain ⟨b, hb, -, rfl⟩ := builderCall_eq_some h
    exact ⟨grows_set hb trivial, .inl (List.length_set ..)⟩
  | addDataPage j gpa page =>
    obtain ⟨b, hb, -, rfl⟩ := builderCall_eq_some
      (show (System.mk m ps L).builderCall j page (fun b => b.addDataPage gpa page) = _ from h)
    exact ⟨grows_set hb trivial, .inl (List.length_set ..)⟩
  | addZeroPage j gpa page =>
    obtain ⟨b, hb, -, rfl⟩ := builderCall_eq_some
      (show (System.mk m ps L).builderCall j page (fun b => b.addZeroPage gpa page) = _ from h)
    exact ⟨grows_set hb trivial, .inl (List.length_set ..)⟩
  | createPages j =>
    obtain ⟨b, hb, rfl⟩ := step_createPages h
    exact ⟨grows_set hb trivial, .inl (List.length_set ..)⟩

/-- One call keeps the owner id of every principal it keeps. -/
theorem owner_step {s s' : System D} {c : Call} {r : Except Error Unit}
    (h : s.step c = some (s', r)) {k : Nat} {p : Principal D} (hk : s.principals[k]? = some p) :
    (s'.principals[k]?).map (·.root.owner) = some p.root.owner := by
  have hids : s'.ids[k]? = s.ids[k]? := by
    rcases (keepsIds_step h).ids with hids | ⟨-, hids⟩
    · rw [hids]
    · rw [hids, List.getElem?_append_left]
      simpa [ids] using (List.getElem?_eq_some_iff.mp hk).1
  simpa [ids, hk] using hids

/-- One call advances every principal it keeps. -/
theorem advances_step {s s' : System D} {c : Call} {r : Except Error Unit}
    (h : s.step c = some (s', r)) {k : Nat} {p : Principal D} (hk : s.principals[k]? = some p) :
    ∃ p', s'.principals[k]? = some p' ∧ p.Advances p' := by
  obtain ⟨p', hk', hp'⟩ := (step_principals h).1 k p hk
  have howner := owner_step h hk
  rw [hk', Option.map_some', Option.some.injEq] at howner
  exact ⟨p', hk', howner, hp'⟩

end System

end Salus
