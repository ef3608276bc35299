import Salus.System

/-!
# Holdings

Where a page can be: in a table, as a valid leaf, an interior node or a root page; in a
builder's PTE pool or the host builder's reservoir; or among the handles the caller holds.
Each of these places is exclusive: a page in one is owned there alone. A table's invalidated
leaves are not exclusive: they remember a page that has been handed on.
-/

namespace Salus

variable {D : Type}

namespace PageTable

/-- The pages of the valid leaf entries. -/
def validPages (t : PageTable) : List Page4k := (t.entries.filter (·.2.valid)).map (·.2.page)

/-- The pages of every leaf entry, valid or invalidated. -/
def entryPages (t : PageTable) : List Page4k := t.entries.map (·.2.page)

/-- The pages of the invalidated leaf entries. -/
def invalidPages (t : PageTable) : List Page4k := (t.entries.filter (!·.2.valid)).map (·.2.page)

/-- The pages of the interior nodes. -/
def nodePages (t : PageTable) : List Page4k := t.nodes.map (·.2)

/-- The pages of the root. -/
def rootPages (t : PageTable) : List Page4k := t.root.intoIter.drain

end PageTable

/-- The pages of a `PageVec`: its storage, then its elements. -/
def PageVec.pages (v : PageVec) : List Page4k := v.storage.intoIter.drain ++ v.items

namespace Principal

/-- The table of a principal. -/
def root : Principal D → PageTable
  | hostBuilder b => b.root
  | guestBuilder b => b.root
  | vm v => v.root

/-- The pages a principal holds exclusively: its table's valid leaves, nodes and root, and a
builder's PTE pool or reservoir. -/
def heldPages : Principal D → List Page4k
  | hostBuilder b => b.root.validPages ++ b.root.nodePages ++ b.root.rootPages ++ b.ptePages
  | guestBuilder b => b.root.validPages ++ b.root.nodePages ++ b.root.rootPages ++ b.ptePages.pages
  | vm v => v.root.validPages ++ v.root.nodePages ++ v.root.rootPages

/-- Whether the principal is a running VM rather than a builder. -/
def isVm : Principal D → Bool
  | vm _ => true
  | _ => false

/-- The pages whose owner stack should have the principal's id on top: the valid leaves of its
table, and for a guest also its nodes, root and PTE pool. The host's root, nodes and PTE
reservoir are the hypervisor's boot pages, which `from_hyp_mem` never hands over. -/
def ownedPages (w : Principal D) : List Page4k :=
  if w.root.owner = .host then w.root.validPages else w.heldPages

end Principal

namespace System

/-- Every exclusively held page: the principals' and the caller's. -/
def exclusivePages (s : System D) : List Page4k :=
  s.principals.flatMap Principal.heldPages ++ s.loose

/-- Page `p` is held by the principal with owner id `o`, in its table (a leaf, valid or
invalidated, a node or the root) or its PTE pool, or else it is among the handles the caller
holds, such as the state page `create_guest_root_builder` returns. -/
def HeldBy (s : System D) (o : PageOwnerId) (p : Page4k) : Prop :=
  (∃ w ∈ s.principals, w.root.owner = o ∧ (p ∈ w.heldPages ∨ p ∈ w.root.entryPages)) ∨
    p ∈ s.loose

instance (s : System D) (o : PageOwnerId) (p : Page4k) : Decidable (s.HeldBy o p) :=
  inferInstanceAs (Decidable (_ ∨ _))

end System

/-- Replacing the element at `i` replaces its share of a `flatMap`. -/
theorem flatMap_set_perm {α β : Type} [DecidableEq β] (f : α → List β) (x : α) :
    ∀ (l : List α) (i : Nat) (h : i < l.length),
      List.Perm ((l.set i x).flatMap f ++ f (l.get ⟨i, h⟩)) (l.flatMap f ++ f x)
  | [], _, h => by simp at h
  | y :: l, 0, _ =>
    List.perm_iff_count.mpr fun a => by simp [List.count_append]; omega
  | y :: l, i + 1, h => by
    simp only [List.set_cons_succ, List.flatMap_cons, List.get_eq_getElem, List.getElem_cons_succ,
      List.append_assoc]
    exact (flatMap_set_perm f x l i (by simpa using h)).append_left _

end Salus
