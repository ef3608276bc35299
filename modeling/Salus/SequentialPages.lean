import Salus.Page
import Mathlib.Data.List.Chain
import Mathlib.Data.List.Range

/-!
# `SequentialPages`

Model of `riscv-page-tables/src/sequential_pages.rs`: a run of `count` consecutive pages from
`addr` on, the iterator `SeqPageIter` that hands the pages back one by one, and the checked
constructor `from_pages`. A Rust iterator is modelled by its `next`, of type
`σ → Option α × σ`; draining it calls `next` until it returns `None`. The iterator that
`from_pages` returns in its `Err` is the chain `seq.into_iter().chain(once(page)).chain(rest)`;
draining a `Chain` drains its first part and then its second, so `FromPagesErr.drain` is the
concatenation of the three parts.
-/

namespace Salus

variable {S : PageSize}

/-- `SequentialPages<S>` (`sequential_pages.rs:12-16`): `count` pages starting at the `u64`
address `addr`. -/
structure SequentialPages (S : PageSize) where
  addr : Nat
  addr_lt : addr < 2 ^ 64
  count : Nat

namespace SequentialPages

/-- `SequentialPages::empty` (`sequential_pages.rs:20-26`). -/
def empty : SequentialPages S := ⟨0, Nat.two_pow_pos 64, 0⟩

/-- `SequentialPages::base` (`sequential_pages.rs:82-86`). -/
def base (s : SequentialPages S) : Nat := s.addr

/-- `SequentialPages::length_bytes` (`sequential_pages.rs:88-92`): the product
`count * S::SIZE_BYTES`, before any `u64` overflow. -/
def lengthBytes (s : SequentialPages S) : Nat := s.count * S.sizeBytes

/-- `SequentialPages::from_mem_range` (`sequential_pages.rs:94-104`). -/
def fromMemRange (start : PageAddr S) (count : Nat) : SequentialPages S :=
  ⟨start.bits, start.bits_lt, count⟩

/-- `From<Page<S>> for SequentialPages<S>` (`sequential_pages.rs:107-115`). -/
def ofPage (p : Page S) : SequentialPages S := ⟨p.bits, p.bits_lt, 1⟩

end SequentialPages

/-- `SeqPageIter<S>` (`sequential_pages.rs:119-121`). -/
structure SeqPageIter (S : PageSize) where
  pages : SequentialPages S

/-- `SeqPageIter::next` (`sequential_pages.rs:126-136`). The address is advanced before the
page is built, with the `u64` addition read as wrapping; `PageAddr::new(..)?` makes `next`
return `None` at an unaligned address. -/
def SeqPageIter.next (it : SeqPageIter S) : Option (Page S) × SeqPageIter S :=
  if it.pages.count = 0 then (none, it)
  else
    ((PageAddr.new S it.pages.addr it.pages.addr_lt).map Page.mk,
      ⟨⟨wrappingAdd it.pages.addr S.sizeBytes, wrappingAdd_lt _ _, it.pages.count - 1⟩⟩)

/-- `IntoIterator for SequentialPages<S>` (`sequential_pages.rs:139-145`). -/
def SequentialPages.intoIter (s : SequentialPages S) : SeqPageIter S := ⟨s⟩

@[simp] theorem SequentialPages.intoIter_pages (s : SequentialPages S) : s.intoIter.pages = s :=
  rfl

/-- The items of an iterator drained by calling `next` until it returns `None`, at most
`fuel` times. -/
def drainFuel {σ α : Type} (next : σ → Option α × σ) : Nat → σ → List α
  | 0, _ => []
  | n + 1, s =>
    match next s with
    | (some a, s') => a :: drainFuel next n s'
    | (none, _) => []

/-- Draining a `SeqPageIter`: once `count` calls have yielded a page, `count` is zero and the
next call returns `None`. -/
def SeqPageIter.drain (it : SeqPageIter S) : List (Page S) :=
  drainFuel SeqPageIter.next it.pages.count it

/-- `Iterator for core::iter::Once`: the iterator is its pending item, and `next` takes it
out. -/
def onceNext {α : Type} (o : Option α) : Option α × Option α := (o, none)

/-- `create_dummy_page_once_iter` (`sequential_pages.rs:147-153`): a `once` iterator over a
page at address 0 whose item is taken out by `next` and forgotten. -/
def createDummyPageOnceIter (S : PageSize) : Option (Page S) :=
  let dummyPage : Page S := ⟨⟨0, Nat.two_pow_pos 64, Nat.zero_mod _⟩⟩
  let dummyIter : Option (Page S) := some dummyPage
  (onceNext dummyIter).2

/-- The iterator in the `Err` of `from_pages`: `seq.into_iter()`, chained with a `Once`
iterator (its pending item), chained with the rest of the input. -/
structure FromPagesErr (S : PageSize) where
  seq : SequentialPages S
  once : Option (Page S)
  rest : List (Page S)

/-- Draining the `Err` iterator of `from_pages`. -/
def FromPagesErr.drain (e : FromPagesErr S) : List (Page S) :=
  e.seq.intoIter.drain ++ e.once.toList ++ e.rest

/-- The `while let Some(page) = page_iter.next()` loop of `from_pages`
(`sequential_pages.rs:58-77`), over the pages the input iterator has left. -/
def fromPagesLoop (seq : SequentialPages S) (lastAddr : Nat) :
    List (Page S) → Except (FromPagesErr S) (SequentialPages S)
  | [] => .ok seq
  | page :: pageIter =>
    let thisAddr := page.bits
    match checkedAdd lastAddr S.sizeBytes with
    | none => .error ⟨seq, some page, pageIter⟩
    | some nextAddr =>
      if thisAddr ≠ nextAddr then .error ⟨seq, some page, pageIter⟩
      else fromPagesLoop { seq with count := seq.count + 1 } thisAddr pageIter

/-- `SequentialPages::from_pages` (`sequential_pages.rs:32-80`). -/
def fromPages : List (Page S) → Except (FromPagesErr S) (SequentialPages S)
  | [] => .error ⟨SequentialPages.empty, createDummyPageOnceIter S, []⟩
  | firstPage :: pageIter =>
    let addr := firstPage.bits
    fromPagesLoop ⟨addr, firstPage.bits_lt, 1⟩ addr pageIter

/-- The `addr += S::SIZE_BYTES` of the next call to `next` overflows `u64`. -/
def SeqPageIter.nextOverflows (it : SeqPageIter S) : Prop :=
  it.pages.count ≠ 0 ∧ 2 ^ 64 ≤ it.pages.addr + S.sizeBytes

/-- The pages a result of `from_pages` hands back: the drained run on `Ok`, the drained
iterator on `Err`. -/
def returnedPages : Except (FromPagesErr S) (SequentialPages S) → List (Page S)
  | .ok seq => seq.intoIter.drain
  | .error e => e.drain

/-! ## Draining a run -/

namespace SeqPageIter

@[simp] theorem next_addr (it : SeqPageIter S) (h : it.pages.count ≠ 0) :
    it.next.2.pages.addr = wrappingAdd it.pages.addr S.sizeBytes := by
  simp [next, h]

@[simp] theorem next_count (it : SeqPageIter S) :
    it.next.2.pages.count = it.pages.count - 1 := by
  unfold next; split <;> simp_all

theorem drain_of_count_eq_zero {it : SeqPageIter S} (h : it.pages.count = 0) : it.drain = [] := by
  simp [drain, h, drainFuel]

/-- Draining a nonempty run from an aligned address yields the page there, then what the
advanced iterator yields. -/
theorem drain_of_aligned {it : SeqPageIter S} (h : it.pages.count ≠ 0)
    (ha : it.pages.addr % S.sizeBytes = 0) :
    it.drain = ⟨⟨it.pages.addr, it.pages.addr_lt, ha⟩⟩ :: it.next.2.drain := by
  obtain ⟨n, hn⟩ := Nat.exists_eq_succ_of_ne_zero h
  simp [drain, hn, drainFuel, next, PageAddr.new_of_aligned it.pages.addr_lt ha]

/-- A run of `n` pages from an aligned address whose last page lies below `2 ^ 64` drains to
the pages at `addr + i * SIZE_BYTES`, `i < n`, in that order. -/
theorem drain_bits (n : Nat) : ∀ it : SeqPageIter S, it.pages.count = n →
    it.pages.addr % S.sizeBytes = 0 → it.pages.addr + (n - 1) * S.sizeBytes < 2 ^ 64 →
    it.drain.map Page.bits = (List.range n).map (it.pages.addr + · * S.sizeBytes) := by
  induction n with
  | zero => intro it hc _ _; simp [drain_of_count_eq_zero hc]
  | succ n ih =>
    intro it hc ha hn
    rw [drain_of_aligned (by omega) ha, List.range_succ_eq_map]
    cases n with
    | zero =>
      simp [Page.bits, drain_of_count_eq_zero (show it.next.2.pages.count = 0 by simp [hc])]
    | succ n =>
      have hs : it.pages.addr + S.sizeBytes < 2 ^ 64 := by
        have : S.sizeBytes ≤ (n + 1) * S.sizeBytes := Nat.le_mul_of_pos_left _ (by omega)
        simp at hn; omega
      have hw := next_addr it (by omega)
      rw [wrappingAdd_of_lt hs] at hw
      have := ih it.next.2 (by simp [hc]) (by rw [hw, Nat.add_mod_right]; exact ha)
        (by rw [hw]; simp [Nat.succ_mul] at hn ⊢; omega)
      simp [Page.bits, this, hw, Nat.succ_mul, Nat.add_assoc, Nat.add_comm S.sizeBytes]

end SeqPageIter

theorem map_bits_injective : Function.Injective (List.map (@Page.bits S)) :=
  List.map_injective_iff.mpr fun _ _ h => Page.ext_bits h

/-- One more page at the end of an aligned run is one more page at the end of its drain. -/
theorem drain_count_succ (s : SequentialPages S) (ha : s.addr % S.sizeBytes = 0) (p : Page S)
    (hp : p.bits = s.addr + s.count * S.sizeBytes) :
    ({ s with count := s.count + 1 } : SequentialPages S).intoIter.drain =
      s.intoIter.drain ++ [p] := by
  have hlt := p.bits_lt
  have hle : (s.count - 1) * S.sizeBytes ≤ s.count * S.sizeBytes :=
    Nat.mul_le_mul_right _ (Nat.sub_le _ _)
  apply map_bits_injective
  rw [List.map_append,
    SeqPageIter.drain_bits (s.count + 1) ({ s with count := s.count + 1 } : SequentialPages S).intoIter
      rfl ha (by simp; omega),
    SeqPageIter.drain_bits s.count s.intoIter rfl ha (by simp; omega)]
  simp [List.range_succ, hp]

/-! ## `from_pages` hands back every page -/

/-- The loop of `from_pages` hands back the pages accepted so far followed by the pages it has
not looked at, whichever way it ends. -/
theorem fromPagesLoop_returnedPages (rest : List (Page S)) : ∀ (seq : SequentialPages S)
    (lastAddr : Nat), seq.addr % S.sizeBytes = 0 →
    lastAddr + S.sizeBytes = seq.addr + seq.count * S.sizeBytes →
    returnedPages (fromPagesLoop seq lastAddr rest) = seq.intoIter.drain ++ rest := by
  induction rest with
  | nil => intros; simp [fromPagesLoop, returnedPages]
  | cons page rest ih =>
    intro seq lastAddr ha hl
    simp only [fromPagesLoop]
    split
    · simp [returnedPages, FromPagesErr.drain]
    · rename_i nextAddr hnext
      split
      · simp [returnedPages, FromPagesErr.drain]
      · rename_i heq
        have hp : page.bits = seq.addr + seq.count * S.sizeBytes := by
          rw [checkedAdd_eq_some] at hnext; omega
        rw [ih { seq with count := seq.count + 1 } page.bits ha (by simp [Nat.succ_mul]; omega),
          drain_count_succ seq ha page hp]
        simp

/-- `from_pages` neither drops, duplicates nor invents a page: what its result hands back is
its input. -/
theorem fromPages_returnedPages (l : List (Page S)) : returnedPages (fromPages l) = l := by
  cases l with
  | nil => rfl
  | cons p rest =>
    rw [fromPages, fromPagesLoop_returnedPages rest _ _ p.aligned (by simp),
      SeqPageIter.drain_of_aligned (by simp) p.aligned]
    simp [SeqPageIter.drain_of_count_eq_zero]
    exact Page.ext_bits rfl

theorem fromPages_error_drain (l : List (Page S)) (e : FromPagesErr S)
    (h : fromPages l = .error e) : e.drain = l := by
  simpa [returnedPages, h] using fromPages_returnedPages l

/-! ## When `from_pages` succeeds -/

/-- The loop of `from_pages` returns `Ok` exactly when every remaining page lies one page
above the one before it, the first above `lastAddr`. -/
theorem fromPagesLoop_ok_iff (rest : List (Page S)) : ∀ (seq : SequentialPages S)
    (lastAddr : Nat), (∃ seq', fromPagesLoop seq lastAddr rest = .ok seq') ↔
      List.Chain (fun a b => b = a + S.sizeBytes) lastAddr (rest.map Page.bits) := by
  induction rest with
  | nil => simp [fromPagesLoop]
  | cons page rest ih =>
    intro seq lastAddr
    have := page.bits_lt
    simp only [fromPagesLoop, List.map_cons, List.chain_cons]
    split
    · rename_i hnone
      rw [checkedAdd_eq_none] at hnone
      simp; omega
    · rename_i nextAddr hnext
      rw [checkedAdd_eq_some] at hnext
      split
      · simp; omega
      · rw [ih]; simp; omega

theorem fromPagesLoop_ok (rest : List (Page S)) : ∀ (seq seq' : SequentialPages S)
    (lastAddr : Nat), fromPagesLoop seq lastAddr rest = .ok seq' →
      seq'.addr = seq.addr ∧ seq'.count = seq.count + rest.length := by
  induction rest with
  | nil => intro seq seq' _ h; cases h; simp
  | cons page rest ih =>
    intro seq seq' lastAddr h
    simp only [fromPagesLoop] at h
    split at h
    · cases h
    · split at h
      · cases h
      · have := ih _ _ _ h; simp at this; simp; omega

/-- The addresses of a run of `n` pages from `addr` each lie one page above the one before. -/
theorem chain'_range_map (addr n : Nat) :
    ((List.range n).map (addr + · * S.sizeBytes)).Chain' (fun a b => b = a + S.sizeBytes) := by
  cases n with
  | zero => simp
  | succ n =>
    rw [List.chain'_map, List.chain'_range_succ]
    intro m _
    simp [Nat.succ_mul, Nat.add_assoc]

theorem fromPages_ok_iff (l : List (Page S)) : (∃ seq, fromPages l = .ok seq) ↔
    l ≠ [] ∧ l.Chain' (fun p q => q.bits = p.bits + S.sizeBytes) := by
  cases l with
  | nil => simp [fromPages]
  | cons p rest =>
    rw [fromPages, fromPagesLoop_ok_iff, List.chain_map]
    simp [List.Chain']

theorem fromPages_ok {l : List (Page S)} {seq : SequentialPages S} (h : fromPages l = .ok seq) :
    l.head?.map Page.bits = some seq.base ∧ seq.intoIter.drain = l ∧ seq.count = l.length := by
  have hd : seq.intoIter.drain = l := by simpa [returnedPages, h] using fromPages_returnedPages l
  cases l with
  | nil => cases h
  | cons p rest =>
    have := fromPagesLoop_ok rest _ _ _ h
    simp at this
    simp [SequentialPages.base, this, hd, Nat.add_comm]

theorem SequentialPages.ofPage_drain (p : Page S) : (SequentialPages.ofPage p).intoIter.drain = [p] :=
  (fromPages_ok (show fromPages [p] = .ok (SequentialPages.ofPage p) from rfl)).2.1

/-- A nonempty run from an aligned base whose last page lies below `2 ^ 64`, however it was
built, drains to its pages in order, and `from_pages` rebuilds it from them. -/
theorem SequentialPages.intoIter_fromPages (r : SequentialPages S) (ha : r.base % S.sizeBytes = 0)
    (hn : 1 ≤ r.count) (hr : r.base + (r.count - 1) * S.sizeBytes < 2 ^ 64) :
    r.intoIter.drain.map Page.bits = (List.range r.count).map (r.base + · * S.sizeBytes) ∧
      ∃ seq, fromPages r.intoIter.drain = .ok seq ∧ seq.base = r.base ∧ seq.count = r.count := by
  have hb := SeqPageIter.drain_bits r.count r.intoIter rfl ha hr
  simp only [intoIter_pages] at hb
  have hlen : r.intoIter.drain.length = r.count := by simpa using congrArg List.length hb
  have hne : r.intoIter.drain ≠ [] := fun h => by simp [h] at hlen; omega
  have hchain : r.intoIter.drain.Chain' (fun p q => q.bits = p.bits + S.sizeBytes) := by
    have := @chain'_range_map S r.addr r.count
    rwa [← hb, List.chain'_map] at this
  obtain ⟨seq, hseq⟩ := (fromPages_ok_iff r.intoIter.drain).mpr ⟨hne, hchain⟩
  obtain ⟨hhead, -, hcount⟩ := fromPages_ok hseq
  refine ⟨hb, seq, hseq, ?_, by omega⟩
  rw [← List.head?_map, hb] at hhead
  obtain ⟨n, hc⟩ := Nat.exists_eq_succ_of_ne_zero (show r.count ≠ 0 by omega)
  simp [hc, List.range_succ_eq_map, base] at hhead
  exact hhead.symm

theorem fromPages_roundTrip :
    (∀ l : List (Page S),
      ((∃ seq, fromPages l = .ok seq) ↔
        l ≠ [] ∧ l.Chain' (fun p q => q.bits = p.bits + S.sizeBytes)) ∧
      ∀ seq, fromPages l = .ok seq →
        l.head?.map Page.bits = some seq.base ∧ seq.intoIter.drain = l) ∧
    ∀ r : SequentialPages S, r.base % S.sizeBytes = 0 → 1 ≤ r.count →
      r.base + r.count * S.sizeBytes < 2 ^ 64 →
      r.intoIter.drain.map Page.bits = (List.range r.count).map (r.base + · * S.sizeBytes) ∧
      ∃ seq, fromPages r.intoIter.drain = .ok seq ∧ seq.base = r.base ∧ seq.count = r.count :=
  ⟨fun l => ⟨fromPages_ok_iff l, fun _ h => ⟨(fromPages_ok h).1, (fromPages_ok h).2.1⟩⟩,
    fun r ha hn hr => r.intoIter_fromPages ha hn (by
      have : (r.count - 1) * S.sizeBytes ≤ r.count * S.sizeBytes :=
        Nat.mul_le_mul_right _ (Nat.sub_le _ _)
      omega)⟩

/-- The unchecked range of `tests::unsafe_range` (`sequential_pages.rs:218-233`) drains to its
four pages and `from_pages` rebuilds it. -/
theorem fromMemRange_roundTrip :
    let r := SequentialPages.fromMemRange (⟨0x1000, by decide, by decide⟩ : PageAddr PageSize4k) 4
    (r.intoIter.drain.map Page.bits = [0x1000, 0x2000, 0x3000, 0x4000] ∧
      ∃ seq, fromPages r.intoIter.drain = .ok seq ∧ seq.base = r.base ∧ seq.count = r.count) :=
  fromPages_roundTrip.2 _ (by decide) (by decide) (by decide)

/-- The gap of `tests::create_failure` (`sequential_pages.rs:171-189`): the `Err` hands back the
four pages in order. -/
theorem fromPages_gap_drain :
    let l : List Page4k := [⟨⟨0x1000, by decide, by decide⟩⟩, ⟨⟨0x2000, by decide, by decide⟩⟩,
      ⟨⟨0x4000, by decide, by decide⟩⟩, ⟨⟨0x5000, by decide, by decide⟩⟩]
    ∃ e, fromPages l = .error e ∧ e.drain = l :=
  ⟨_, rfl, fromPages_error_drain _ _ rfl⟩

/-! ## Overflow -/

/-- An aligned address below `2 ^ 64` is at least one page below it. -/
theorem add_sizeBytes_le {a : Nat} (h : a < 2 ^ 64) (ha : a % S.sizeBytes = 0) :
    a + S.sizeBytes ≤ 2 ^ 64 := by
  obtain ⟨m, hm⟩ := S.sizeBytes_dvd
  obtain ⟨k, rfl⟩ := Nat.dvd_of_mod_eq_zero ha
  rw [hm] at h ⊢
  have : k < m := Nat.lt_of_mul_lt_mul_left h
  calc S.sizeBytes * k + S.sizeBytes = S.sizeBytes * (k + 1) := (Nat.mul_succ _ _).symm
    _ ≤ S.sizeBytes * m := Nat.mul_le_mul_left _ this

theorem fromPagesLoop_end_le (rest : List (Page S)) : ∀ (seq seq' : SequentialPages S)
    (lastAddr : Nat), lastAddr < 2 ^ 64 → lastAddr % S.sizeBytes = 0 →
    lastAddr + S.sizeBytes = seq.addr + seq.count * S.sizeBytes →
    fromPagesLoop seq lastAddr rest = .ok seq' → seq'.addr + seq'.count * S.sizeBytes ≤ 2 ^ 64 := by
  induction rest with
  | nil =>
    intro seq seq' lastAddr hlt ha hl h
    cases h
    have := add_sizeBytes_le hlt ha
    omega
  | cons page rest ih =>
    intro seq seq' lastAddr _ _ hl h
    simp only [fromPagesLoop] at h
    split at h
    · cases h
    · rename_i nextAddr hnext
      rw [checkedAdd_eq_some] at hnext
      split at h
      · cases h
      · exact ih _ _ _ page.bits_lt page.aligned (by simp [Nat.succ_mul]; omega) h

/-- A run `from_pages` accepts ends at most at `2 ^ 64`: its byte length and the address past
its last page exceed `u64::MAX` only when its last page is the topmost page. -/
theorem fromPages_end_le {l : List (Page S)} {seq : SequentialPages S}
    (h : fromPages l = .ok seq) : seq.base + seq.lengthBytes ≤ 2 ^ 64 := by
  cases l with
  | nil => cases h
  | cons p rest =>
    exact fromPagesLoop_end_le rest _ _ p.bits p.bits_lt p.aligned (by simp) h

/-- `from_pages` accepts the topmost page and the whole address space. Both runs end exactly at
`2 ^ 64`, the bound of `fromPages_end_le` and one past `u64::MAX`: the first `next` on the first
run overflows, and the second's `length_bytes` overflows. -/
theorem fromPages_overflows_u64 :
    (∃ seq, fromPages [(⟨⟨2 ^ 64 - 4096, by decide, by decide⟩⟩ : Page4k)] = .ok seq ∧
      u64Max < seq.base + seq.count * PageSize4k.sizeBytes ∧
      seq.base + seq.lengthBytes = 2 ^ 64 ∧ seq.intoIter.nextOverflows) ∧
    ∃ seq, fromPages (SequentialPages.fromMemRange
        (⟨0, by decide, by decide⟩ : PageAddr PageSize4k) (2 ^ 52)).intoIter.drain = .ok seq ∧
      u64Max < seq.lengthBytes ∧ seq.base + seq.lengthBytes = 2 ^ 64 := by
  have htop := fromPages_end_le (l := [(⟨⟨2 ^ 64 - 4096, by decide, by decide⟩⟩ : Page4k)]) rfl
  refine ⟨⟨_, rfl, by decide, le_antisymm htop (by decide),
    by unfold SeqPageIter.nextOverflows; decide⟩, ?_⟩
  obtain ⟨-, seq, hseq, hbase, hcount⟩ := SequentialPages.intoIter_fromPages
    (SequentialPages.fromMemRange (⟨0, by decide, by decide⟩ : PageAddr PageSize4k) (2 ^ 52))
    (by decide) (by decide) (by decide)
  have hlen : seq.lengthBytes = 2 ^ 64 := by
    simp [SequentialPages.lengthBytes, hcount, SequentialPages.fromMemRange]
  have hend : seq.base + seq.lengthBytes = 2 ^ 64 := le_antisymm (fromPages_end_le hseq) (by omega)
  exact ⟨seq, hseq, by rw [hlen]; decide, hend⟩

end Salus
