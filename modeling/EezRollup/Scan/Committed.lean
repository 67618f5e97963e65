import EezRollup.Scan.Logs

/-! A frame is committed when neither it nor a frame it runs in failed. -/
open List
namespace Eez.Scan
open Outcome

namespace CallFrame

def data : CallFrame → FrameData
  | .mk frame _ => frame

def calls : CallFrame → List CallFrame
  | .mk _ calls => calls

end CallFrame

mutual
/-- The committed frames of a trace, in execution order. -/
def committed : CallFrame → List CallFrame
  | .mk frame calls => if frame.failed then [] else .mk frame calls :: committedAll calls

def committedAll : List CallFrame → List CallFrame
  | [] => []
  | call :: calls => committed call ++ committedAll calls
end

inductive Reaches : CallFrame → List FrameData → CallFrame → Prop where
  | here (g : CallFrame) : Reaches g [] g
  | under {root call g : CallFrame} {path : List FrameData} (mem : call ∈ root.calls) (rest : Reaches call path g) :
      Reaches root (root.data :: path) g

section
variable (eez : Address)

def CallFrame.isPost (f : CallFrame) : Bool := f.data.isPost eez

def scannedIn (frames : List CallFrame) : Nat := (frames.map fun f => f.data.scanned eez).sum

def callOf (f : CallFrame) : Call := ⟨f.data.input, f.data.sender, scannedIn eez (committed f)⟩

def CallFrame.nests (f : CallFrame) : Bool := f.isPost eez && (committedAll f.calls).any (·.isPost eez)

end

theorem Reaches.mk_iff : Reaches (.mk frame calls) path g ↔
      (path = [] ∧ g = .mk frame calls) ∨ ∃ rest, path = frame :: rest ∧ ∃ call ∈ calls, Reaches call rest g := by
  constructor
  · intro reaches
    cases reaches with
    | here => exact .inl ⟨rfl, rfl⟩
    | under mem rest => exact .inr ⟨_, rfl, _, mem, rest⟩
  · rintro (⟨rfl, rfl⟩ | ⟨rest, rfl, call, mem, reaches⟩)
    · exact .here _
    · exact .under mem reaches

def CommittedUnder (root g : CallFrame) : Prop :=
  ∃ path, Reaches root path g ∧ (∀ f ∈ path, f.failed = false) ∧ g.data.failed = false

theorem committedUnder_mk : CommittedUnder (.mk frame calls) g ↔
      frame.failed = false ∧ (g = .mk frame calls ∨ ∃ call ∈ calls, CommittedUnder call g) := by
  simp only [CommittedUnder, Reaches.mk_iff]
  constructor
  · rintro ⟨path, ⟨rfl, rfl⟩ | ⟨rest, rfl, call, mem, reaches⟩, passed, ended⟩
    · exact ⟨ended, .inl rfl⟩
    · obtain ⟨first, passed⟩ := forall_mem_cons.mp passed
      exact ⟨first, .inr ⟨call, mem, rest, reaches, passed, ended⟩⟩
  · rintro ⟨first, rfl | ⟨call, mem, rest, reaches, passed, ended⟩⟩
    · exact ⟨[], .inl ⟨rfl, rfl⟩, by simp, first⟩
    · exact ⟨_, .inr ⟨rest, rfl, call, mem, reaches⟩, forall_mem_cons.mpr ⟨first, passed⟩, ended⟩

mutual
theorem mem_committed : ∀ {root : CallFrame}, g ∈ committed root ↔ CommittedUnder root g
  | .mk frame calls => by
    rw [committed, committedUnder_mk, ← mem_committedAll]
    cases frame.failed <;> simp

theorem mem_committedAll : ∀ {roots : List CallFrame}, g ∈ committedAll roots ↔ ∃ root ∈ roots, CommittedUnder root g
  | [] => by simp [committedAll]
  | root :: roots => by rw [committedAll, mem_append, mem_committed, mem_committedAll, exists_mem_cons_iff]
end

section
variable {eez : Address}

theorem scannedIn_append (left right : List CallFrame) :
    scannedIn eez (left ++ right) = scannedIn eez left + scannedIn eez right := by
  rw [scannedIn, map_append, sum_append]
  rfl

theorem Walked.count_zero (out : Walked) (k : Nat) : out.count (some k) 0 = out :=
  Prod.ext (modify_id k out.1) rfl

theorem Walked.count_count (out : Walked) (k m n : Nat) :
    (out.count (some k) m).count (some k) n = out.count (some k) (m + n) := by
  simp only [Walked.count, modify_modify_eq, Function.comp_def, Nat.add_assoc]

theorem Walked.count_last (calls : List Call) (call : Call) (total n : Nat) :
    Walked.count (calls ++ [call], total) (some calls.length) n =
      (calls ++ [{ call with logs := call.logs + n }], total + n) := by
  have last : (calls ++ [call]).modify calls.length (fun call => { call with logs := call.logs + n }) =
      calls ++ [{ call with logs := call.logs + n }] := by
    induction calls with
    | nil => rfl
    | cons c calls ih => rw [cons_append, length_cons, modify_succ_cons, ih, cons_append]
  rw [Walked.count, last]

mutual
theorem walk_inside (k : Nat) : ∀ (f : CallFrame) (out : Walked), walk eez (some k) f out =
    if (committed f).any (·.isPost eez) then none else some (out.count (some k) (scannedIn eez (committed f)))
  | .mk frame calls, out => by
    rw [walk, committed]
    cases frame.failed with
    | true => simp [scannedIn, Walked.count_zero]
    | false =>
      cases post : frame.isPost eez with
      | true => simp [CallFrame.isPost, CallFrame.data, post]
      | false =>
        simp [CallFrame.isPost, CallFrame.data, post, walkAll_inside k calls, Walked.count_count, scannedIn]

theorem walkAll_inside (k : Nat) : ∀ (fs : List CallFrame) (out : Walked), walkAll eez (some k) fs out =
    if (committedAll fs).any (·.isPost eez) then none
    else some (out.count (some k) (scannedIn eez (committedAll fs)))
  | [], out => by simp [walkAll, committedAll, scannedIn, Walked.count_zero]
  | f :: fs, out => by
    rw [walkAll, walk_inside k f, committedAll, any_append, scannedIn_append]
    cases (committed f).any (·.isPost eez) with
    | true => rfl
    | false => simp [walkAll_inside k fs, Walked.count_count]
end

theorem no_posts {frames : List CallFrame} (none : frames.any (·.isPost eez) = false) :
    frames.filter (·.isPost eez) = [] ∧ frames.any (·.nests eez) = false := by
  rw [any_eq_false] at none ⊢
  refine ⟨filter_eq_nil_iff.mpr none, fun f mem nested => none f mem ?_⟩
  exact (Bool.and_eq_true_iff.mp nested).1

mutual
theorem walk_outside : ∀ (f : CallFrame) (out : Walked), walk eez none f out =
    if (committed f).any (·.nests eez) then none
    else some (out.1 ++ ((committed f).filter (·.isPost eez)).map (callOf eez), out.2 + scannedIn eez (committed f))
  | .mk frame calls, out => by
    rw [walk, committed]
    cases failed : frame.failed with
    | true => simp [scannedIn]
    | false =>
      cases post : frame.isPost eez with
      | true =>
        have isPost : (CallFrame.mk frame calls).isPost eez = true := post
        have nests : (CallFrame.mk frame calls).nests eez = (committedAll calls).any (·.isPost eez) := by
          rw [CallFrame.nests, isPost, Bool.true_and, CallFrame.calls]
        simp only [Bool.false_eq_true, if_false, Option.isSome_none, Bool.and_false, if_true,
          Walked.count_last, walkAll_inside, any_cons, nests]
        cases under : (committedAll calls).any (·.isPost eez) with
        | true => rfl
        | false =>
          obtain ⟨none, flat⟩ := no_posts under
          simp [none, flat, isPost, callOf, committed, failed, scannedIn, CallFrame.data, Nat.add_assoc]
      | false =>
        simp [CallFrame.isPost, CallFrame.nests, CallFrame.data, post, walkAll_outside calls, Walked.count,
          scannedIn, Nat.add_assoc]

theorem walkAll_outside : ∀ (fs : List CallFrame) (out : Walked), walkAll eez none fs out =
    if (committedAll fs).any (·.nests eez) then none
    else some (out.1 ++ ((committedAll fs).filter (·.isPost eez)).map (callOf eez),
      out.2 + scannedIn eez (committedAll fs))
  | [], out => by simp [walkAll, committedAll, scannedIn]
  | f :: fs, out => by
    rw [walkAll, walk_outside f, committedAll, any_append, scannedIn_append]
    cases (committed f).any (·.nests eez) with
    | true => rfl
    | false => simp [walkAll_outside fs, Nat.add_assoc]
end

theorem callsInTx_eq_ok : callsInTx root eez place = .ok out ↔ (committed root).any (·.nests eez) = false ∧
      out = (((committed root).filter (·.isPost eez)).map (callOf eez), scannedIn eez (committed root)) := by
  rw [callsInTx, require_eq_ok, walk_outside]
  cases (committed root).any (·.nests eez) with
  | true => simp
  | false => simp [eq_comm]

theorem only_root (only : (committed root).filter (·.isPost eez) = [root]) :
    root.isPost eez = true ∧ (committed root).any (·.nests eez) = false := by
  have post : root.isPost eez = true := by
    have mem : root ∈ (committed root).filter (·.isPost eez) := only ▸ mem_singleton_self root
    exact (mem_filter.mp mem).2
  obtain ⟨frame, calls⟩ := root
  rw [committed] at only ⊢
  split at only
  · cases only
  · rw [filter_cons_of_pos post, List.cons.injEq] at only
    have below : (committedAll calls).any (·.isPost eez) = false :=
      any_eq_false.mpr (filter_eq_nil_iff.mp only.2)
    refine ⟨post, ?_⟩
    rw [if_neg ‹_›, any_cons, (no_posts below).2, CallFrame.nests, CallFrame.calls, below, Bool.and_false]
    rfl

/-- The walk lists the committed posts in execution order, each with the scanned
logs of its committed subtree, and counts all committed scanned logs. It fails
exactly on a committed post under another. Where the root frame is the
transaction's own and the only post, the answer is the direct call's. -/
theorem callsInTx_lists_committed (root : CallFrame) (eez : Address) (place : String) :
    (∀ calls total, callsInTx root eez place = .ok (calls, total) →
      calls = ((committed root).filter (·.isPost eez)).map (callOf eez) ∧ total = scannedIn eez (committed root)) ∧
    ((∃ e, callsInTx root eez place = .error e) ↔ ∃ outer, CommittedUnder root outer ∧ outer.isPost eez = true ∧
      ∃ call ∈ outer.calls, ∃ inner, CommittedUnder call inner ∧ inner.isPost eez = true) ∧
    ∀ tx : Transaction, tx.toAddress = root.data.toAddress → tx.input = root.data.input →
      tx.signer = root.data.sender → (committed root).filter (·.isPost eez) = [root] →
      ∃ call, directCall tx eez (scannedIn eez (committed root)) = some call ∧
        callsInTx root eez place = .ok ([call], scannedIn eez (committed root)) := by
  refine ⟨?_, ?_, ?_⟩
  · intro calls total ok
    exact Prod.mk.inj (callsInTx_eq_ok.mp ok).2
  · rw [exists_error_iff]
    simp only [callsInTx_eq_ok, exists_and_left, exists_eq, and_true, Bool.not_eq_false, any_eq_true,
      mem_committed, CallFrame.nests, Bool.and_eq_true, mem_committedAll]
    constructor
    · rintro ⟨outer, under, post, inner, ⟨call, mem, below⟩, posts⟩
      exact ⟨outer, under, post, call, mem, inner, below, posts⟩
    · rintro ⟨outer, under, post, call, mem, inner, below, posts⟩
      exact ⟨outer, under, post, inner, ⟨call, mem, below⟩, posts⟩
  · intro tx target bytes signer only
    obtain ⟨post, flat⟩ := only_root only
    refine ⟨callOf eez root, ?_, callsInTx_eq_ok.mpr ⟨flat, by rw [only]; rfl⟩⟩
    have direct : tx.toAddress = some eez ∧ postAndVerifyBatchSelector.isPrefixOf tx.input = true := by
      simp only [CallFrame.isPost, FrameData.isPost, Bool.and_eq_true, beq_iff_eq] at post
      rw [target, bytes]
      exact ⟨post.1.2, post.2⟩
    rw [directCall, if_pos direct, bytes, signer]
    rfl

def postFrame : FrameData where
  typ := "CALL"
  sender := 0xaa#160
  toAddress := some 0xee#160
  input := postAndVerifyBatchSelector ++ [7]
  error := none
  revertReason := none
  logs := [⟨some 0xee#160, some [batchPostedSignature]⟩, ⟨some 0xdd#160, some [batchPostedSignature]⟩]

def postTrace : CallFrame := .mk postFrame [.mk { postFrame with error := some "execution reverted" } []]

def nestedTrace : CallFrame := .mk postFrame [.mk postFrame []]

theorem callsInTx_lists_committed_direct :
    (∃ call, directCall ⟨some 0xee#160, postFrame.input, 0xaa#160⟩ 0xee#160 1 = some call ∧
      callsInTx postTrace 0xee#160 "" = .ok ([call], 1)) ∧
    ∃ e, callsInTx nestedTrace 0xee#160 "" = .error e :=
  have only : (committed postTrace).filter (·.isPost 0xee#160) = [postTrace] := by rfl
  have nested : CommittedUnder nestedTrace nestedTrace := ⟨[], .here _, by simp, by rfl⟩
  have inner : CommittedUnder (.mk postFrame []) (.mk postFrame []) := ⟨[], .here _, by simp, by rfl⟩
  ⟨(callsInTx_lists_committed postTrace 0xee#160 "").2.2 ⟨some 0xee#160, postFrame.input, 0xaa#160⟩ rfl rfl rfl only,
    (callsInTx_lists_committed nestedTrace 0xee#160 "").2.1.mpr
      ⟨_, nested, by rfl, _, mem_singleton_self _, _, inner, by rfl⟩⟩

end

end Eez.Scan
