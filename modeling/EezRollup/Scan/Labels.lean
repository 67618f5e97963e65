import EezRollup.Scan.Grammar
import EezRollup.Scan.Walk

/-! Call `k` of a transaction owns the logs it counted that end at the k-th `BatchPosted`. -/
namespace Eez.Scan
open List Octets Outcome Intervals

def rangeStart (c : Call × PostEnd) : Nat := c.2.last + 1 - c.1.logs

def Fits : Nat → List (Call × PostEnd) → Prop
  | _, [] => True
  | floor, c :: cs => (0 < c.1.logs ∧ c.1.logs ≤ c.2.last + 1) ∧ floor ≤ rangeStart c ∧ Fits (c.2.last + 1) cs

section
variable {floor k : Nat} {c : Call × PostEnd} {cs : List (Call × PostEnd)} {labels : List (Option Nat)}

theorem Fits.mem (fits : Fits floor cs) (mem : c ∈ cs) :
    floor ≤ rangeStart c ∧ rangeStart c ≤ c.2.last ∧ c.2.last + 1 - rangeStart c = c.1.logs := by
  induction cs generalizing floor with
  | nil => cases mem
  | cons head cs ih =>
    obtain ⟨counted, above, rest⟩ := fits
    obtain rfl | mem := mem_cons.mp mem
    · unfold rangeStart at above ⊢
      omega
    · have := ih rest mem
      unfold rangeStart at above
      omega

theorem Fits.pairwise (fits : Fits floor cs) : cs.Pairwise fun a b => a.2.last < rangeStart b := by
  induction cs generalizing floor with
  | nil => exact .nil
  | cons head cs ih =>
    obtain ⟨-, -, rest⟩ := fits
    exact .cons (fun b mem => (rest.mem mem).1) (ih rest)

def painted (k : Nat) (c : Call × PostEnd) (labels : List (Option Nat)) : List (Option Nat) :=
  labels.take (rangeStart c) ++ replicate (c.2.last + 1 - rangeStart c) (some k) ++ labels.drop (c.2.last + 1)

def paintAll : Nat → List (Call × PostEnd) → List (Option Nat) → List (Option Nat)
  | _, [], labels => labels
  | k, c :: cs, labels => paintAll (k + 1) cs (painted k c labels)

theorem painted_length (bound : c.2.last < labels.length) : (painted k c labels).length = labels.length := by
  simp only [painted, length_append, length_take, length_replicate, length_drop, rangeStart]
  omega

theorem painted_getElem? (bound : c.2.last < labels.length) (p : Nat) :
    (painted k c labels)[p]? = if rangeStart c ≤ p ∧ p ≤ c.2.last then some (some k) else labels[p]? := by
  have start : rangeStart c ≤ c.2.last + 1 := Nat.sub_le _ _
  have front : (labels.take (rangeStart c)).length = rangeStart c := by
    rw [length_take]
    omega
  rw [painted, append_assoc, getElem?_append, front, getElem?_append, length_replicate]
  by_cases before : p < rangeStart c
  · rw [if_pos before, getElem?_take_of_lt before, if_neg (by omega)]
  · rw [if_neg before]
    by_cases inside : p ≤ c.2.last
    · rw [if_pos (by omega), if_pos (by omega), getElem?_replicate, if_pos (by omega)]
    · rw [if_neg (by omega), if_neg (by omega), getElem?_drop]
      congr 1
      omega

variable (bound : ∀ c ∈ cs, c.2.last < labels.length)
include bound

theorem paintAll_length : (paintAll k cs labels).length = labels.length := by
  induction cs generalizing k labels with
  | nil => rfl
  | cons c cs ih =>
    obtain ⟨first, rest⟩ := forall_mem_cons.mp bound
    have same := painted_length (k := k) first
    rw [paintAll, ih (same ▸ rest), same]

theorem paintAll_outside
    (outside : ∀ c ∈ cs, ¬(rangeStart c ≤ p ∧ p ≤ c.2.last)) : (paintAll k cs labels)[p]? = labels[p]? := by
  induction cs generalizing k labels with
  | nil => rfl
  | cons c cs ih =>
    obtain ⟨first, rest⟩ := forall_mem_cons.mp bound
    obtain ⟨out, later⟩ := forall_mem_cons.mp outside
    have same := painted_length (k := k) first
    rw [paintAll, ih (same ▸ rest) later, painted_getElem? first, if_neg out]

/-- Inside the j-th range stands its call: no later range reaches back. -/
theorem paintAll_inside (fits : Fits floor cs) {j : Nat}
    (at_j : cs[j]? = some c) (inside : rangeStart c ≤ p ∧ p ≤ c.2.last) :
    (paintAll k cs labels)[p]? = some (some (k + j)) := by
  induction cs generalizing k labels floor j with
  | nil => cases at_j
  | cons head cs ih =>
    obtain ⟨first, rest⟩ := forall_mem_cons.mp bound
    obtain ⟨-, -, fits⟩ := fits
    have same := painted_length (k := k) first
    cases j with
    | zero =>
      obtain rfl := Option.some.inj at_j
      rw [paintAll, paintAll_outside (same ▸ rest), painted_getElem? first, if_pos inside]
      · rfl
      · intro b mem
        have := (fits.mem mem).1
        omega
    | succ j =>
      rw [paintAll, ih (same ▸ rest) fits at_j, Nat.add_assoc, Nat.add_comm 1 j]

end

abbrev Reported (h : Halt) : Prop := h ≠ .panicked

theorem reported_failed (e : L1Error) : Reported (.failed e) := by
  intro same
  cases same

theorem failsIn_index {α : Type} {l : List α} {i : Nat} (bound : i < l.length) : FailsIn Reported (index l i) :=
  failsIn_of_ok ⟨_, index_eq_ok.mpr (getElem?_eq_getElem bound)⟩

section
variable {ext : Externals} {block : Block} {tx : Tx}

variable {message : String} {p : Prop} {position : Nat}

theorem ensureAt_eq_ok [Decidable p] : ensureAt block tx position p message = .ok u ↔ p := by
  unfold ensureAt
  split
  · simp [*]
  · simp [*]

theorem ensureAt_fails [Decidable p] (bound : position < tx.logs.length) (misfit : ¬p) :
    ∃ e, Reported e ∧ ensureAt block tx position p message = .error e := by
  obtain ⟨log, found⟩ : ∃ log, tx.logs[position]? = some log := ⟨_, getElem?_eq_getElem bound⟩
  refine ⟨.decode s!"{atLog block.number log}: {message}", reported_failed _, ?_⟩
  rw [ensureAt, if_neg misfit, index_eq_ok.mpr found]
  rfl

theorem failsIn_ensureAt [Decidable p]
    (bound : position < tx.logs.length) : FailsIn Reported (ensureAt block tx position p message) := by
  by_cases holds : p
  · exact failsIn_of_ok ⟨(), ensureAt_eq_ok.mpr holds⟩
  · have misfit : ∃ e, Reported e ∧ ensureAt block tx position p message = .error e := ensureAt_fails bound holds
    obtain ⟨e, reported, failed⟩ := misfit
    rw [failed]
    exact failsIn_error.mpr reported

theorem range_checked {floor : Nat} (bound : c.2.last < usizeMax) :
    (floor ≤ (if c.1.logs ≤ c.2.last + 1 then c.2.last + 1 - c.1.logs else usizeMax) ∧
      (if c.1.logs ≤ c.2.last + 1 then c.2.last + 1 - c.1.logs else usizeMax) ≤ c.2.last) ↔
      (0 < c.1.logs ∧ c.1.logs ≤ c.2.last + 1) ∧ floor ≤ rangeStart c := by
  unfold rangeStart
  split <;> omega

section
variable {k floor : Nat} {c : Call × PostEnd} {cs : List (Call × PostEnd)} {labels labels' : List (Option Nat)}

theorem labelCalls_fits (slice : labels.length ≤ usizeMax) (bound : c.2.last < labels.length)
    (fits : (0 < c.1.logs ∧ c.1.logs ≤ c.2.last + 1) ∧ floor ≤ rangeStart c) :
    labelCalls block tx k floor (c :: cs) labels =
      labelCalls block tx (k + 1) (c.2.last + 1) cs (painted k c labels) := by
  have checked := (range_checked (Nat.lt_of_lt_of_le bound slice)).mpr fits
  rw [labelCalls, ensureAt, if_pos checked, ok_bind, ensure_pos bound, ok_bind, if_pos fits.1.2]
  rfl

theorem labelCalls_misfit (slice : labels.length ≤ usizeMax) (bound : c.2.last < labels.length)
    (logs : labels.length = tx.logs.length)
    (misfit : ¬((0 < c.1.logs ∧ c.1.logs ≤ c.2.last + 1) ∧ floor ≤ rangeStart c)) :
    ∃ e, Reported e ∧ labelCalls block tx k floor (c :: cs) labels = .error e := by
  have checked := mt (range_checked (Nat.lt_of_lt_of_le bound slice)).mp misfit
  obtain ⟨e, reported, failed⟩ := ensureAt_fails (logs ▸ bound) checked
  refine ⟨e, reported, ?_⟩
  rw [labelCalls, failed]
  rfl

variable (slice : labels.length ≤ usizeMax) (bound : ∀ c ∈ cs, c.2.last < labels.length)
    (logs : labels.length = tx.logs.length)
include slice bound logs

theorem labelCalls_eq_ok :
    labelCalls block tx k floor cs labels = .ok labels' ↔ Fits floor cs ∧ labels' = paintAll k cs labels := by
  induction cs generalizing k floor labels with
  | nil => simp [labelCalls, Fits, paintAll, eq_comm]
  | cons c cs ih =>
    obtain ⟨first, rest⟩ := forall_mem_cons.mp bound
    have same := painted_length (k := k) first
    by_cases fits : (0 < c.1.logs ∧ c.1.logs ≤ c.2.last + 1) ∧ floor ≤ rangeStart c
    · rw [labelCalls_fits slice first fits, ih (same ▸ slice) (same ▸ rest) (same ▸ logs), Fits, paintAll,
        and_iff_right fits.1, and_iff_right fits.2]
    · obtain ⟨e, -, failed⟩ := labelCalls_misfit slice first logs fits
      rw [failed]
      simp only [reduceCtorEq, false_iff]
      rintro ⟨⟨counted, above, -⟩, -⟩
      exact fits ⟨counted, above⟩

theorem failsIn_labelCalls : FailsIn Reported (labelCalls block tx k floor cs labels) := by
  induction cs generalizing k floor labels with
  | nil => simp [labelCalls]
  | cons c cs ih =>
    obtain ⟨first, rest⟩ := forall_mem_cons.mp bound
    have same := painted_length (k := k) first
    by_cases fits : (0 < c.1.logs ∧ c.1.logs ≤ c.2.last + 1) ∧ floor ≤ rangeStart c
    · rw [labelCalls_fits slice first fits]
      exact ih (same ▸ slice) (same ▸ rest) (same ▸ logs)
    · obtain ⟨e, reported, failed⟩ := labelCalls_misfit slice first logs fits
      rw [failed]
      exact failsIn_error.mpr reported

end

section
variable {labels : List (Option Nat)} {items : List Item}

def Uniform (labels : List (Option Nat)) (item : Item) : Prop :=
  ∀ p, item.first ≤ p → p ≤ item.last → labels[p]? = labels[item.first]?

theorem span_uniform {item : Item} (inside : item.first ≤ item.last) (bound : item.last < labels.length) :
    (∀ label ∈ (labels.take (item.last + 1)).drop item.first,
      ((labels.take (item.last + 1)).drop item.first).head? = some label) ↔ Uniform labels item := by
  have span : ∀ i, item.first + i ≤ item.last →
      ((labels.take (item.last + 1)).drop item.first)[i]? = labels[item.first + i]? := by
    intro i le
    rw [getElem?_drop, getElem?_take_of_lt (by omega)]
  have head : ((labels.take (item.last + 1)).drop item.first).head? = labels[item.first]? := by
    rw [head?_eq_getElem?]
    exact span 0 inside
  rw [head]
  constructor
  · intro same p low high
    have at_p : labels[p]? = some labels[p] := getElem?_eq_getElem (by omega)
    have mem : labels[p] ∈ (labels.take (item.last + 1)).drop item.first := by
      refine mem_of_getElem? (i := p - item.first) ?_
      rw [span _ (by omega), Nat.add_sub_cancel' low, at_p]
    rw [at_p, same _ mem]
  · intro uniform label mem
    obtain ⟨i, at_i⟩ := mem_iff_getElem?.mp mem
    have high : item.first + i ≤ item.last := by
      have := (List.getElem?_eq_some_iff.mp at_i).1
      rw [length_drop, length_take] at this
      omega
    rw [← uniform _ (Nat.le_add_right _ _) high, ← span i high, at_i]

variable (tiles : ∀ item ∈ items, item.first ≤ item.last ∧ item.last < labels.length)
include tiles

theorem checkStraddle_eq_ok : checkStraddle block tx labels items = .ok u ↔ ∀ item ∈ items, Uniform labels item := by
  induction items with
  | nil => simp [checkStraddle]
  | cons item items ih =>
    obtain ⟨⟨inside, bound⟩, rest⟩ := forall_mem_cons.mp tiles
    have slice : item.first ≤ item.last + 1 ∧ item.last < labels.length := ⟨by omega, bound⟩
    simp only [checkStraddle, bind_eq_ok, ensure_eq_ok, slice, ensureAt_eq_ok, exists_const, true_and,
      forall_mem_cons, span_uniform inside bound, ih rest]

theorem failsIn_checkStraddle
    (logs : labels.length = tx.logs.length) : FailsIn Reported (checkStraddle block tx labels items) := by
  induction items with
  | nil => simp [checkStraddle]
  | cons item items ih =>
    obtain ⟨⟨inside, bound⟩, rest⟩ := forall_mem_cons.mp tiles
    have slice : item.first ≤ item.last + 1 ∧ item.last < labels.length := ⟨by omega, bound⟩
    rw [checkStraddle, ensure_pos slice, ok_bind, failsIn_bind]
    exact ⟨failsIn_ensureAt (logs ▸ bound), fun _ _ => ih rest⟩

end


section
variable {cs : List (Call × PostEnd)} {n : Nat}

/-- An item whose labels are all one lies inside the range of its call, or
outside all ranges. -/
theorem item_place (bound : ∀ c ∈ cs, c.2.last < n) (fits : Fits 0 cs) {item : Item} (inside : item.first ≤ item.last)
    (last : item.last < n) (uniform : Uniform (paintAll 0 cs (replicate n none)) item) :
    (∃ k c, cs[k]? = some c ∧ rangeStart c ≤ item.first ∧ item.last ≤ c.2.last ∧
      (paintAll 0 cs (replicate n none))[item.first]? = some (some k)) ∨
    ((∀ c ∈ cs, item.last < rangeStart c ∨ c.2.last < item.first) ∧
      (paintAll 0 cs (replicate n none))[item.first]? = some none) := by
  have bound' : ∀ c ∈ cs, c.2.last < (replicate n (none : Option Nat)).length := by
    rw [length_replicate]
    exact bound
  have blank : ∀ p < n, (replicate n (none : Option Nat))[p]? = some none := by
    intro p lt
    rw [getElem?_replicate, if_pos lt]
  have covered : ∀ k c p, cs[k]? = some c → rangeStart c ≤ p ∧ p ≤ c.2.last →
      (paintAll 0 cs (replicate n none))[p]? = some (some k) := by
    intro k c p at_k within
    rw [paintAll_inside bound' fits at_k within, Nat.zero_add]
  by_cases start : ∃ c ∈ cs, rangeStart c ≤ item.first ∧ item.first ≤ c.2.last
  · obtain ⟨c, mem, within⟩ := start
    obtain ⟨k, at_k⟩ := mem_iff_getElem?.mp mem
    have label := covered k c _ at_k within
    refine .inl ⟨k, c, at_k, within.1, ?_, label⟩
    -- the last log has the same label, so it is in the same range
    have same := (uniform item.last inside (Nat.le_refl _)).trans label
    by_cases stop : ∃ c ∈ cs, rangeStart c ≤ item.last ∧ item.last ≤ c.2.last
    · obtain ⟨c', mem', within'⟩ := stop
      obtain ⟨k', at_k'⟩ := mem_iff_getElem?.mp mem'
      rw [covered k' c' _ at_k' within', Option.some.injEq, Option.some.injEq] at same
      rw [same, at_k] at at_k'
      obtain rfl := Option.some.inj at_k'
      exact within'.2
    · rw [paintAll_outside bound' fun c mem within => stop ⟨c, mem, within⟩, blank _ last] at same
      cases Option.some.inj same
  · have label := paintAll_outside (k := 0) bound' fun c mem within => start ⟨c, mem, within⟩
    rw [blank _ (by omega)] at label
    refine .inr ⟨fun c mem => ?_, label⟩
    by_contra overlaps
    obtain ⟨k, at_k⟩ := mem_iff_getElem?.mp mem
    have range := (fits.mem mem).2.1
    have shared := uniform (max (rangeStart c) item.first) (Nat.le_max_right _ _) (by omega)
    rw [covered k c _ at_k (by omega), label] at shared
    cases Option.some.inj shared

end

/-- The place of each call: the post it starts, counted from `n`, or another rollup's post. -/
def callPlaces (us : UInt64) : Nat → List (Call × PostEnd) → List Place
  | _, [] => []
  | n, c :: cs => if us ∈ c.2.ids then .ours n :: callPlaces us (n + 1) cs else .foreign :: callPlaces us n cs

theorem callPlaces_length (us : UInt64) (n : Nat) (cs : List (Call × PostEnd)) :
    (callPlaces us n cs).length = cs.length := by
  induction cs generalizing n with
  | nil => rfl
  | cons c cs ih =>
    rw [callPlaces]
    split <;> rw [length_cons, ih, length_cons]

/-- The post that is read for a call: at its `BatchPosted`, from its sender. -/
structure Starts (tx : Tx) (c : Call × PostEnd) (r : Reading) : Prop where
  posted : ∃ log, tx.logs[c.2.last]? = some log ∧ r.post.id.logIndex = log.logIndex
  sender : r.post.sender = c.1.sender

theorem startPosts_starts (ok : startPosts ext block us tx txHash cs posts = .ok (places, posts')) :
    places = callPlaces us posts.length cs ∧
      ∃ new, posts' = posts ++ new ∧ Forall₂ (Starts tx) (cs.filter fun c => us ∈ c.2.ids) new := by
  induction cs generalizing posts posts' places with
  | nil =>
    obtain ⟨rfl, rfl⟩ := Prod.mk.inj (Except.ok.inj ok)
    exact ⟨rfl, [], (append_nil _).symm, .nil⟩
  | cons c cs ih =>
    rw [startPosts] at ok
    rw [callPlaces]
    split at ok
    · rename_i lists
      simp only [bind_eq_ok, Prod.exists, pure_eq_ok, Prod.mk.injEq, index_eq_ok] at ok
      obtain ⟨log, found, batch, -, reading, started, rest, _, ok, rfl, rfl⟩ := ok
      obtain ⟨rfl, new, rfl, starts⟩ := ih ok
      obtain ⟨-, rfl⟩ := Reading.new_eq_ok.mp started
      refine ⟨?_, _ :: new, append_cons _ _ _ |>.symm, ?_⟩
      · rw [if_pos lists, length_append]
        rfl
      · rw [filter_cons_of_pos (by simpa using lists)]
        exact .cons ⟨⟨log, found, rfl⟩, rfl⟩ starts
    · rename_i lists
      simp only [bind_eq_ok, Prod.exists, pure_eq_ok, Prod.mk.injEq] at ok
      obtain ⟨rest, _, ok, rfl, rfl⟩ := ok
      obtain ⟨rfl, new, rfl, starts⟩ := ih ok
      refine ⟨(if_neg lists).symm, new, rfl, ?_⟩
      rw [filter_cons_of_neg (by simpa using lists)]
      exact starts

theorem failsIn_verify {call spi ids id place} : FailsIn Reported (verify ext call spi ids id place) := by
  simp only [verify, failsIn_bind, failsIn_mapError, failsIn_ensure, failsIn_pure]
  exact ⟨fun _ _ => reported_failed _, fun _ _ => ⟨fun _ => reported_failed _, fun _ _ => ⟨fun _ _ => reported_failed _,
    fun _ _ => ⟨fun _ => reported_failed _, fun _ _ => ⟨fun _ => reported_failed _, fun _ _ => trivial⟩⟩⟩⟩⟩

theorem failsIn_startPosts (bound : ∀ c ∈ cs, c.2.last < tx.logs.length) :
    FailsIn Reported (startPosts ext block us tx txHash cs posts) := by
  induction cs generalizing posts with
  | nil => simp [startPosts]
  | cons c cs ih =>
    obtain ⟨first, rest⟩ := forall_mem_cons.mp bound
    rw [startPosts]
    split
    · simp only [failsIn_bind, failsIn_pure, implies_true, and_true]
      refine ⟨failsIn_index first, fun log _ => ⟨failsIn_verify, fun batch _ => ⟨?_, fun reading _ => ih rest⟩⟩⟩
      simp only [Reading.new, failsIn_bind, failsIn_ensure, failsIn_pure, implies_true, and_true]
      exact fun _ => reported_failed _
    · simp only [failsIn_bind, failsIn_pure, implies_true, and_true]
      exact ih rest

/-- An item inside the range of a call has its place; one outside all ranges lies between them. -/
def ItemPlaced (cs : List (Call × PostEnd)) (byCall : List Place) (item : Item) (place : Place) : Prop :=
  (∃ k : Nat, ∃ c, cs[k]? = some c ∧ rangeStart c ≤ item.first ∧ item.last ≤ c.2.last ∧ byCall[k]? = some place) ∨
    ((∀ c ∈ cs, item.last < rangeStart c ∨ c.2.last < item.first) ∧ place = .between)

/-- What labelling gives: the k-th call's range ends at the k-th `BatchPosted` and
holds the logs the call counted, ranges follow on each other, an item has its
call's place or lies between the calls, and one post starts for each call that
lists us. -/
structure WellPlaced (us : UInt64) (tx : Tx) (calls : List Call) (posts : List Reading) (places : List Place)
    (posts' : List Reading) : Prop where
  matched : calls.length = (postEnds tx.items).length
  counted : ∀ c ∈ calls.zip (postEnds tx.items), rangeStart c ≤ c.2.last ∧ c.2.last + 1 - rangeStart c = c.1.logs
  ordered : (calls.zip (postEnds tx.items)).Pairwise fun a b => a.2.last < rangeStart b
  placed : Forall₂
    (ItemPlaced (calls.zip (postEnds tx.items)) (callPlaces us posts.length (calls.zip (postEnds tx.items))))
    tx.items places
  started : ∃ new, posts' = posts ++ new ∧
    Forall₂ (Starts tx) ((calls.zip (postEnds tx.items)).filter fun c => us ∈ c.2.ids) new

theorem mem_postEnds (mem : ended ∈ postEnds items) : ∃ item ∈ items, item.last = ended.last := by
  obtain ⟨item, mem, found⟩ := mem_filterMap.mp mem
  refine ⟨item, mem, ?_⟩
  split at found
  · rw [← Option.some.inj found]
  · cases found

theorem failsIn_placeOf {byCall : List Place} {labels : List (Option Nat)} {item : Item} {label}
    (found : labels[item.first]? = some label) (known : ∀ k, label = some k → k < byCall.length) :
    FailsIn Reported (placeOf byCall labels item) := by
  rw [placeOf, index_eq_ok.mpr found, ok_bind]
  cases label with
  | none => exact failsIn_pure
  | some k => exact failsIn_index (known k rfl)

section
variable {us : UInt64} {posts : List Reading} {calls : List Call} {traced : Nat}

theorem ends_bound (tiles : Tiles 0 (tx.items.map Item.range) tx.logs.length) :
    ∀ c ∈ calls.zip (postEnds tx.items), c.2.last < tx.logs.length := by
  intro c mem
  obtain ⟨item, listed, last⟩ := mem_postEnds (of_mem_zip mem).2
  rw [← last]
  exact (tiles.mem (mem_map_of_mem listed)).2.2

theorem labelCalls_blank {labels : List (Option Nat)} (slice : tx.logs.length ≤ usizeMax)
    (tiles : Tiles 0 (tx.items.map Item.range) tx.logs.length)
    (labelled : labelCalls block tx 0 0 (calls.zip (postEnds tx.items)) (replicate tx.logs.length none) = .ok labels) :
    Fits 0 (calls.zip (postEnds tx.items)) ∧ labels.length = tx.logs.length ∧
      labels = paintAll 0 (calls.zip (postEnds tx.items)) (replicate tx.logs.length none) := by
  have length : (replicate tx.logs.length (none : Option Nat)).length = tx.logs.length := length_replicate
  have bound : ∀ c ∈ calls.zip (postEnds tx.items),
      c.2.last < (replicate tx.logs.length (none : Option Nat)).length := length.symm ▸ ends_bound tiles
  obtain ⟨fits, rfl⟩ := (labelCalls_eq_ok (length.symm ▸ slice) bound length).mp labelled
  exact ⟨fits, (paintAll_length bound).trans length, rfl⟩

theorem failsIn_label (nonempty : tx.logs ≠ []) (slice : tx.logs.length ≤ usizeMax)
    (tiles : Tiles 0 (tx.items.map Item.range) tx.logs.length) :
    FailsIn Reported (label ext block tx (some (calls, traced)) us posts) := by
  have bound : ∀ c ∈ calls.zip (postEnds tx.items), c.2.last < tx.logs.length := ends_bound tiles
  have length : (replicate tx.logs.length (none : Option Nat)).length = tx.logs.length := length_replicate
  have inside : ∀ item ∈ tx.items, item.first ≤ item.last ∧ item.last < tx.logs.length :=
    fun item mem => (tiles.mem (mem_map_of_mem mem)).2
  simp only [label, failsIn_bind, failsIn_ensure]
  refine ⟨failsIn_index (length_pos_of_ne_nil nonempty), fun head _ => ⟨fun _ => reported_failed _, fun _ _ => ?_⟩⟩
  split
  · -- a `BatchPosted` without its call
    rename_i unposted
    simp only [failsIn_bind, index_eq_ok, failsIn_throw]
    refine ⟨failsIn_index unposted, fun ended found => ⟨failsIn_index ?_, fun _ _ => reported_failed _⟩⟩
    obtain ⟨item, mem, last⟩ := mem_postEnds (mem_of_getElem? found)
    exact last ▸ (inside item mem).2
  · simp only [failsIn_bind, failsIn_pure, implies_true, and_true]
    refine ⟨failsIn_labelCalls (length.symm ▸ slice) (length.symm ▸ bound) length, fun labels labelled => ?_⟩
    obtain ⟨fits, painted, rfl⟩ := labelCalls_blank slice tiles labelled
    have tiled := painted.symm ▸ inside
    refine ⟨failsIn_checkStraddle tiled painted, fun _ straddles => ⟨failsIn_startPosts bound, ?_⟩⟩
    rintro ⟨byCall, posts'⟩ started
    obtain ⟨rfl, -⟩ := startPosts_starts started
    refine failsIn_mapM fun item mem => ?_
    have uniform := (checkStraddle_eq_ok tiled).mp straddles item mem
    obtain ⟨k, c, at_k, -, -, found⟩ | ⟨-, found⟩ :=
      item_place bound fits (inside item mem).1 (inside item mem).2 uniform
    · refine failsIn_placeOf found fun k' same => ?_
      obtain rfl := Option.some.inj same
      rw [callPlaces_length]
      exact (List.getElem?_eq_some_iff.mp at_k).1
    · exact failsIn_placeOf found fun k' absent => by cases absent

theorem label_wellPlaced (slice : tx.logs.length ≤ usizeMax) (tiles : Tiles 0 (tx.items.map Item.range) tx.logs.length)
    (ok : label ext block tx (some (calls, traced)) us posts = .ok (places, posts')) :
    WellPlaced us tx calls posts places posts' := by
  have inside : ∀ item ∈ tx.items, item.first ≤ item.last ∧ item.last < tx.logs.length :=
    fun item mem => (tiles.mem (mem_map_of_mem mem)).2
  simp only [label, bind_eq_ok, ensure_eq_ok, exists_const] at ok
  obtain ⟨head, -, ⟨-, atMost⟩, ok⟩ := ok
  split at ok
  · simp [bind_eq_ok] at ok
  · rename_i posted
    simp only [bind_eq_ok, Prod.exists, pure_eq_ok, Prod.mk.injEq, mapM_eq_ok] at ok
    obtain ⟨labels, labelled, u, straddles, byCall, _, started, _, each, rfl, rfl⟩ := ok
    obtain ⟨fits, painted, rfl⟩ := labelCalls_blank slice tiles labelled
    obtain ⟨rfl, new, rfl, starts⟩ := startPosts_starts started
    have uniform := (checkStraddle_eq_ok (painted.symm ▸ inside)).mp straddles
    refine ⟨by omega, fun c mem => (fits.mem mem).2, fits.pairwise, ?_, new, rfl, starts⟩
    refine ((forall₂_and_left (p := fun item => item ∈ tx.items) _ _).mpr ⟨fun _ mem => mem, each⟩).imp ?_
    rintro item place ⟨mem, placed⟩
    obtain ⟨first, last⟩ := inside item mem
    obtain ⟨k, c, at_k, start, stop, found⟩ | ⟨outside, found⟩ :=
      item_place (ends_bound tiles) fits first last (uniform item mem)
    · rw [placeOf, index_eq_ok.mpr found, ok_bind] at placed
      exact .inl ⟨k, c, at_k, start, stop, index_eq_ok.mp placed⟩
    · rw [placeOf, index_eq_ok.mpr found, ok_bind] at placed
      exact .inr ⟨outside, (Except.ok.inj placed).symm⟩

/-- Whatever the calls and their log counts, labelling a parsed transaction never
indexes out of bounds, and where it succeeds the labels are well placed. -/
theorem label_of_parsed (ext : Externals) (block : Block) (us : UInt64) (posts : List Reading) (number : UInt64)
    (logs : List ScannedLog) (tx : Tx) (parsed : parseTx number logs = .ok tx) (nonempty : logs ≠ [])
    (slice : logs.length ≤ usizeMax) (calls : List Call) (traced : Nat) :
    label ext block tx (some (calls, traced)) us posts ≠ .error .panicked ∧
      ∀ places posts', label ext block tx (some (calls, traced)) us posts = .ok (places, posts') →
        WellPlaced us tx calls posts places posts' := by
  obtain ⟨kinds, decomposes, rfl⟩ := parseTx_eq_ok.mp parsed
  have tiles := decomposes.tiles
  refine ⟨fun panicked => ?_, fun places posts' ok => label_wellPlaced slice tiles ok⟩
  exact failsIn_label nonempty slice tiles _ panicked rfl

end

end

def labelledLogs : List ScannedLog :=
  [⟨0, 10, 0, .consumed ⟨9, 3, 0⟩⟩, ⟨0, 10, 1, .root 3 5⟩, ⟨0, 10, 2, .executed 0 0⟩, ⟨0, 10, 3, .root 1 5⟩,
    ⟨0, 10, 4, .executed 0 0⟩, ⟨0, 10, 5, .posted 0 [1]⟩]

def labelledTx : Tx :=
  ⟨labelledLogs, [⟨0, 2, .record ⟨some ⟨9, 3, 0⟩, [(3, 5)], 0⟩⟩, ⟨3, 4, .record ⟨none, [(1, 5)], 0⟩⟩,
    ⟨5, 5, .posted 0 [1]⟩]⟩

/-- A call that counted three logs owns the last two items; one that counted seven is refused. -/
theorem label_of_parsed_sample :
    (∃ posts', label zeroExternals ⟨1, 1, labelledLogs⟩ labelledTx (some ([⟨[], 0, 3⟩], 6)) 1 [] =
        .ok ([.between, .ours 0, .ours 0], posts') ∧
      WellPlaced 1 labelledTx [⟨[], 0, 3⟩] [] [.between, .ours 0, .ours 0] posts') ∧
    label zeroExternals ⟨1, 1, labelledLogs⟩ labelledTx (some ([⟨[], 0, 7⟩], 6)) 1 [] ≠ .error .panicked := by
  have parsed : parseTx 1 labelledLogs = .ok labelledTx := by decide +kernel
  have nonempty : labelledLogs ≠ [] := by decide
  have slice : labelledLogs.length ≤ usizeMax := by decide
  have places : (label zeroExternals ⟨1, 1, labelledLogs⟩ labelledTx (some ([⟨[], 0, 3⟩], 6)) 1 []).map Prod.fst =
      .ok [.between, .ours 0, .ours 0] := by decide +kernel
  refine ⟨?_, (label_of_parsed _ _ _ _ _ _ _ parsed nonempty slice _ _).1⟩
  cases result : label zeroExternals ⟨1, 1, labelledLogs⟩ labelledTx (some ([⟨[], 0, 3⟩], 6)) 1 [] with
  | error e =>
    rw [result] at places
    cases places
  | ok placed =>
    obtain ⟨found, posts'⟩ := placed
    rw [result] at places
    obtain rfl := Except.ok.inj places
    exact ⟨posts', rfl, (label_of_parsed _ _ _ _ _ _ _ parsed nonempty slice _ _).2 _ _ result⟩

end Eez.Scan
