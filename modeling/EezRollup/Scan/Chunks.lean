import EezRollup.Driver.BlockCommitter
import EezRollup.Lib.Intervals
import EezRollup.Lib.Runs
import EezRollup.Scan.Walk
import Mathlib.Data.List.Infix

/-! A range of blocks is cut into chunks, oldest last. Scanned and pending ranges always tile the
range. -/
namespace Eez.Scan
open List Octets Outcome Intervals Runs

def logScanChunkBlocks : UInt64 := 100000

structure BatchLogChunks where
  toBlock : UInt64
  ranges : List (UInt64 × UInt64)

/-- `n` numbers from `start` on, `logScanChunkBlocks` apart. -/
def stepFrom : UInt64 → Nat → List UInt64
  | _, 0 => []
  | start, n + 1 => start :: stepFrom (start + logScanChunkBlocks) n

/-- Every `logScanChunkBlocks`-th number of an inclusive range. -/
def chunkStarts (fromBlock toBlock : UInt64) : List UInt64 :=
  if fromBlock ≤ toBlock then stepFrom fromBlock ((toBlock - fromBlock) / logScanChunkBlocks + 1).toNat else []

def BatchLogChunks.new (fromBlock toBlock : UInt64) : BatchLogChunks :=
  let span := logScanChunkBlocks - 1
  let chunk := fun start => (start, min (Driver.saturatingAdd start span) toBlock)
  ⟨toBlock, ((chunkStarts fromBlock toBlock).map chunk).reverse⟩

def tooWideTexts : List String :=
  ["exceeds max results", "query returned more than", "more than 10000 results", "response size exceeded",
    "query timeout exceeded", "range is too large", "block range too large", "too many results"]

def isRangeTooWide : L1Error → Bool
  | .provider msg => tooWideTexts.any fun cap => decide (cap.toList <:+: msg.toList.map Char.toLower)
  | _ => false

/-- What one call is answered: its k-th `get_logs` for a range, and the rest. -/
structure ScanAnswers where
  getLogs : Nat → UInt64 → UInt64 → Except String (List RawLog)
  provider : Provider

def fetchScannedLogs (answers : ScanAnswers) (k : Nat) (fromBlock toBlock : UInt64) :
    Except L1Error (List RawLog) :=
  (answers.getLogs k fromBlock toBlock).mapError fun e => .provider s!"get_logs({fromBlock}..={toBlock}): {e}"

def narrowed (fromBlock hi : UInt64) : UInt64 := fromBlock + (hi - fromBlock) / 2

variable {fromBlock hi : UInt64} {answers : ScanAnswers}

theorem narrowed_toNat (wide : fromBlock < hi) :
    (narrowed fromBlock hi).toNat = fromBlock.toNat + (hi.toNat - fromBlock.toNat) / 2 := by
  have lt := UInt64.lt_iff_toNat_lt.mp wide
  have small := hi.toNat_lt
  rw [narrowed, UInt64.toNat_add, UInt64.toNat_div, UInt64.toNat_sub_of_le _ _ (UInt64.le_of_lt wide)]
  exact Nat.mod_eq_of_lt (by simp only [UInt64.reduceToNat]; omega)

theorem narrowed_lt (wide : fromBlock < hi) : fromBlock ≤ narrowed fromBlock hi ∧ narrowed fromBlock hi < hi := by
  have lt := UInt64.lt_iff_toNat_lt.mp wide
  rw [UInt64.le_iff_toNat_le, UInt64.lt_iff_toNat_lt, narrowed_toNat wide]
  omega

/-- The logs of the widest range that is served, and where it ends. A single
block that is still refused is not narrowed. -/
def fetchAdaptive (answers : ScanAnswers) (fromBlock : UInt64) (k : Nat) (hi : UInt64) :
    Except L1Error (List RawLog × UInt64) :=
  match fetchScannedLogs answers k fromBlock hi with
  | .ok raw => .ok (raw, hi)
  | .error err =>
    if wide : isRangeTooWide err = true ∧ fromBlock < hi then
      fetchAdaptive answers fromBlock (k + 1) (narrowed fromBlock hi)
    else .error err
termination_by hi.toNat
decreasing_by exact UInt64.lt_iff_toNat_lt.mp (narrowed_lt wide.2).2

section
variable (ext : Externals) (eez : Address) (us : UInt64)

def scanBatchLogsRangeAdaptive (answers : ScanAnswers) (fromBlock toBlock : UInt64) :
    Except Halt (List Post × UInt64) := do
  let (raw, reached) ← (fetchAdaptive answers fromBlock 0 toBlock).mapError .failed
  let posts ← readLogs ext answers.provider eez us raw
  return (posts, reached)

/-- Scan the oldest pending chunk; nothing once every chunk is scanned. -/
def scanNextBatchLogChunk (answers : ScanAnswers) (chunks : BatchLogChunks) :
    Except Halt (Option (List Post)) × BatchLogChunks :=
  match chunks.ranges.getLast? with
  | none => (.ok none, chunks)
  | some (fromBlock, toBlock) =>
    match scanBatchLogsRangeAdaptive ext eez us answers fromBlock toBlock with
    | .error e => (.error e, chunks)
    | .ok (posts, reached) =>
      let ranges := chunks.ranges.dropLast
      -- narrowed: the tail is queued again
      let ranges := if reached < toBlock then ranges ++ [(reached + 1, toBlock)] else ranges
      (.ok (some posts), { chunks with ranges })

end

def natRange (r : UInt64 × UInt64) : Nat × Nat := (r.1.toNat, r.2.toNat)

/-- Where the range `[fromBlock, toBlock]` stops; an empty one stops where it starts. -/
def stopOf (fromBlock toBlock : UInt64) : Nat := max fromBlock.toNat (toBlock.toNat + 1)

theorem logScanChunkBlocks_toNat : logScanChunkBlocks.toNat = 100000 := by decide

theorem chunkEnd_toNat (start toBlock : UInt64) :
    (min (Driver.saturatingAdd start (logScanChunkBlocks - 1)) toBlock).toNat =
      min (start.toNat + 99999) toBlock.toNat := by
  have small := toBlock.toNat_lt
  have span : (logScanChunkBlocks - 1).toNat = 99999 := by decide
  have ended : (Driver.saturatingAdd start (logScanChunkBlocks - 1)).toNat =
    min (start.toNat + 99999) (2 ^ 64 - 1) := by
    unfold Driver.saturatingAdd
    rw [span]
    split
    · rename_i fits
      rw [UInt64.toNat_add, span, Nat.mod_eq_of_lt fits]
      omega
    · rename_i exceeds
      rw [UInt64.toNat_ofNat_of_lt' (by decide)]
      omega
  rw [UInt64.toNat_min, ended]
  omega

theorem stepFrom_tiles {start toBlock : UInt64} {n : Nat}
    (inside : start.toNat + 100000 * n ≤ toBlock.toNat) (last : toBlock.toNat < start.toNat + 100000 * n + 100000) :
    Tiles start.toNat (((stepFrom start (n + 1)).map fun s =>
      (s, min (Driver.saturatingAdd s (logScanChunkBlocks - 1)) toBlock)).map natRange) (toBlock.toNat + 1) := by
  have small := toBlock.toNat_lt
  induction n generalizing start with
  | zero =>
    refine ⟨rfl, ?_, ?_⟩
    · simp only [natRange, chunkEnd_toNat]
      omega
    · simp only [natRange, chunkEnd_toNat, stepFrom, map_nil, Tiles]
      omega
  | succ n ih =>
    have next : (start + logScanChunkBlocks).toNat = start.toNat + 100000 := by
      rw [UInt64.toNat_add, logScanChunkBlocks_toNat]
      exact Nat.mod_eq_of_lt (by omega)
    have follows : (min (Driver.saturatingAdd start (logScanChunkBlocks - 1)) toBlock).toNat + 1 =
        (start + logScanChunkBlocks).toNat := by
      rw [chunkEnd_toNat, next]
      omega
    have inside' : (start + logScanChunkBlocks).toNat + 100000 * n ≤ toBlock.toNat := by omega
    have last' : toBlock.toNat < (start + logScanChunkBlocks).toNat + 100000 * n + 100000 := by omega
    refine ⟨rfl, ?_, ?_⟩
    · simp only [natRange, chunkEnd_toNat]
      omega
    · simp only [natRange, follows]
      exact ih inside' last'

theorem new_tiles (fromBlock toBlock : UInt64) :
    Tiles fromBlock.toNat ((BatchLogChunks.new fromBlock toBlock).ranges.reverse.map natRange)
      (stopOf fromBlock toBlock) := by
  have small := toBlock.toNat_lt
  simp only [BatchLogChunks.new, reverse_reverse, chunkStarts, stopOf]
  split
  · rename_i le
    have le' := UInt64.le_iff_toNat_le.mp le
    have count : ((toBlock - fromBlock) / logScanChunkBlocks + 1).toNat =
        (toBlock.toNat - fromBlock.toNat) / 100000 + 1 := by
      rw [UInt64.toNat_add, UInt64.toNat_div, UInt64.toNat_sub_of_le _ _ le, logScanChunkBlocks_toNat]
      exact Nat.mod_eq_of_lt (by simp only [UInt64.reduceToNat]; omega)
    have inside : fromBlock.toNat + 100000 * ((toBlock.toNat - fromBlock.toNat) / 100000) ≤ toBlock.toNat := by omega
    have last : toBlock.toNat < fromBlock.toNat + 100000 * ((toBlock.toNat - fromBlock.toNat) / 100000) + 100000 := by
      omega
    rw [count, Nat.max_eq_right (by omega)]
    exact stepFrom_tiles inside last
  · rename_i gt
    have gt' := mt UInt64.le_iff_toNat_le.mpr gt
    exact (Nat.max_eq_left (by omega)).symm

def requested (answers : ScanAnswers) (fromBlock : UInt64) (k : Nat) (hi : UInt64) : List UInt64 :=
  match fetchScannedLogs answers k fromBlock hi with
  | .ok _ => [hi]
  | .error err =>
    if wide : isRangeTooWide err = true ∧ fromBlock < hi then
      hi :: requested answers fromBlock (k + 1) (narrowed fromBlock hi)
    else [hi]
termination_by hi.toNat
decreasing_by exact UInt64.lt_iff_toNat_lt.mp (narrowed_lt wide.2).2

/-- Each request is narrower than the one before and none is below a block, and
the answer to the last one is the loop's. -/
structure Narrows (answers : ScanAnswers) (fromBlock : UInt64) (k : Nat) (hi : UInt64) (requests : List UInt64) :
    Prop where
  shrinks : requests.IsChain fun wider narrower => narrower < wider
  inside : ∀ h ∈ requests, fromBlock ≤ h ∧ h ≤ hi
  answered : ∃ reached, requests.getLast? = some reached ∧ fetchAdaptive answers fromBlock k hi =
      (fetchScannedLogs answers (k + requests.length - 1) fromBlock reached).map fun raw => (raw, reached)

theorem requested_narrows (le : fromBlock ≤ hi) :
    Narrows answers fromBlock k hi (requested answers fromBlock k hi) := by
  induction k, hi using requested.induct answers fromBlock with
  | case1 k hi raw served =>
    have loop : fetchAdaptive answers fromBlock k hi = .ok (raw, hi) := by
      rw [fetchAdaptive, served]
    rw [requested, served]
    refine ⟨isChain_singleton _, ?_, hi, rfl, ?_⟩
    · simpa using le
    · rw [loop, length_singleton, Nat.add_sub_cancel, served]
      rfl
  | case2 k hi err refused wide ih =>
    obtain ⟨low, less⟩ := narrowed_lt wide.2
    obtain ⟨shrinks, inside, reached, last, answered⟩ := ih low
    have loop : fetchAdaptive answers fromBlock k hi =
      fetchAdaptive answers fromBlock (k + 1) (narrowed fromBlock hi) := by
      rw [fetchAdaptive, refused]
      exact dif_pos wide
    have requests : requested answers fromBlock k hi =
        hi :: requested answers fromBlock (k + 1) (narrowed fromBlock hi) := by
      rw [requested, refused]
      exact dif_pos wide
    have some_last : (requested answers fromBlock (k + 1) (narrowed fromBlock hi)) ≠ [] := by
      intro empty
      rw [empty] at last
      cases last
    rw [requests]
    refine ⟨?_, ?_, reached, ?_, ?_⟩
    · refine shrinks.cons fun next first => ?_
      exact UInt64.lt_of_le_of_lt (inside next (mem_of_mem_head? first)).2 less
    · refine forall_mem_cons.mpr ⟨⟨le, UInt64.le_refl hi⟩, fun h mem => ?_⟩
      exact ⟨(inside h mem).1, UInt64.le_trans (inside h mem).2 (UInt64.le_of_lt less)⟩
    · rw [getLast?_cons_of_ne_nil some_last, last]
    · rw [loop, answered, length_cons]
      congr 3
      omega
  | case3 k hi err refused narrow =>
    have loop : fetchAdaptive answers fromBlock k hi = .error err := by
      rw [fetchAdaptive, refused]
      exact dif_neg narrow
    have requests : requested answers fromBlock k hi = [hi] := by
      rw [requested, refused]
      exact dif_neg narrow
    rw [requests]
    refine ⟨isChain_singleton _, ?_, hi, rfl, ?_⟩
    · simpa using le
    · rw [loop, length_singleton, Nat.add_sub_cancel, refused]
      rfl

theorem fetchAdaptive_served (le : fromBlock ≤ hi)
    (served : fetchAdaptive answers fromBlock k hi = .ok (raw, reached)) :
    fromBlock ≤ reached ∧ reached ≤ hi ∧ ∃ k, answers.getLogs k fromBlock reached = .ok raw := by
  have narrows : Narrows answers fromBlock k hi (requested answers fromBlock k hi) := requested_narrows le
  obtain ⟨-, inside, last, isLast, answered⟩ := narrows
  rw [served] at answered
  cases result : fetchScannedLogs answers (k + (requested answers fromBlock k hi).length - 1) fromBlock last with
  | error e =>
    rw [result] at answered
    cases answered
  | ok raw' =>
    rw [result] at answered
    obtain ⟨rfl, rfl⟩ := Prod.mk.inj (Except.ok.inj answered)
    obtain ⟨low, high⟩ := inside reached (mem_of_getLast? isLast)
    exact ⟨low, high, _, mapError_eq_ok.mp result⟩

theorem served_inside {lo : UInt64} (le : lo ≤ hi)
    (scan : scanBatchLogsRangeAdaptive ext eez us answers lo hi = .ok (posts, reached)) :
    lo ≤ reached ∧ reached ≤ hi ∧ ∃ raw k, answers.getLogs k lo reached = .ok raw ∧
      readLogs ext answers.provider eez us raw = .ok posts := by
  simp only [scanBatchLogsRangeAdaptive, bind_eq_ok, mapError_eq_ok, Prod.exists, pure_eq_ok, Prod.mk.injEq] at scan
  obtain ⟨raw, _, served, _, read, rfl, rfl⟩ := scan
  obtain ⟨low, high, k, answered⟩ := fetchAdaptive_served le served
  exact ⟨low, high, raw, k, answered, read⟩

structure ChunkScan where
  chunks : BatchLogChunks
  scanned : List (UInt64 × UInt64)

section
variable (ext : Externals) (eez : Address) (us : UInt64)

/-- The range a call scans, when it succeeds on one. -/
def scannedRange (answers : ScanAnswers) (chunks : BatchLogChunks) : Option (UInt64 × UInt64) :=
  chunks.ranges.getLast?.bind fun r =>
    (scanBatchLogsRangeAdaptive ext eez us answers r.1 r.2).toOption.map fun served => (r.1, served.2)

def ChunkScan.step (s : ChunkScan) (answers : ScanAnswers) : ChunkScan :=
  ⟨(scanNextBatchLogChunk ext eez us answers s.chunks).2,
    s.scanned ++ (scannedRange ext eez us answers s.chunks).toList⟩

def ChunkScan.start (fromBlock toBlock : UInt64) : ChunkScan := ⟨.new fromBlock toBlock, []⟩

theorem scanNext_cases (answers : ScanAnswers) (chunks : BatchLogChunks) :
    (chunks.ranges = [] ∧ scanNextBatchLogChunk ext eez us answers chunks = (.ok none, chunks) ∧
      scannedRange ext eez us answers chunks = none) ∨
    (∃ e, scanNextBatchLogChunk ext eez us answers chunks = (.error e, chunks) ∧
      scannedRange ext eez us answers chunks = none) ∨
    ∃ rest lo hi posts reached, chunks.ranges = rest ++ [(lo, hi)] ∧
      scanBatchLogsRangeAdaptive ext eez us answers lo hi = .ok (posts, reached) ∧
      scanNextBatchLogChunk ext eez us answers chunks = (.ok (some posts),
        { chunks with ranges := if reached < hi then rest ++ [(reached + 1, hi)] else rest }) ∧
      scannedRange ext eez us answers chunks = some (lo, reached) := by
  unfold scanNextBatchLogChunk scannedRange
  cases last : chunks.ranges.getLast? with
  | none => exact .inl ⟨getLast?_eq_none_iff.mp last, rfl, rfl⟩
  | some r =>
    obtain ⟨lo, hi⟩ := r
    obtain ⟨rest, ranges⟩ := getLast?_eq_some_iff.mp last
    cases scan : scanBatchLogsRangeAdaptive ext eez us answers lo hi with
    | error e =>
      refine .inr (.inl ⟨e, ?_, ?_⟩)
      · simp only [scan]
      · simp only [Option.bind_some, scan]
        rfl
    | ok served =>
      obtain ⟨posts, reached⟩ := served
      refine .inr (.inr ⟨rest, lo, hi, posts, reached, ranges, scan, ?_, ?_⟩)
      · simp only [scan, ranges, dropLast_concat]
      · simp only [Option.bind_some, scan]
        rfl

variable {ext eez us}

/-- Scanned and pending ranges, oldest first, tile the range. -/
def ChunkScan.Partitions (fromBlock toBlock : UInt64) (s : ChunkScan) : Prop :=
  Tiles fromBlock.toNat ((s.scanned ++ s.chunks.ranges.reverse).map natRange) (stopOf fromBlock toBlock)

theorem ChunkScan.Partitions.step {s : ChunkScan} (parts : s.Partitions fromBlock toBlock) (answers : ScanAnswers) :
    (s.step ext eez us answers).Partitions fromBlock toBlock := by
  unfold ChunkScan.Partitions at parts ⊢
  obtain ⟨-, next, range⟩ | ⟨e, next, range⟩ | ⟨rest, lo, hi, posts, reached, ranges, scan, next, range⟩ :=
    scanNext_cases ext eez us answers s.chunks
  · rw [ChunkScan.step, next, range, Option.toList_none, append_nil]
    exact parts
  · rw [ChunkScan.step, next, range, Option.toList_none, append_nil]
    exact parts
  · rw [ranges, reverse_concat, map_append, tiles_append] at parts
    obtain ⟨middle, before, first, inside, after⟩ := parts
    obtain ⟨low, high, -⟩ := served_inside (UInt64.le_iff_toNat_le.mpr inside) scan
    have low' := UInt64.le_iff_toNat_le.mp low
    have high' := UInt64.le_iff_toNat_le.mp high
    have scanned : Tiles fromBlock.toNat ((s.scanned ++ [(lo, reached)]).map natRange) (reached.toNat + 1) := by
      rw [map_append, tiles_append]
      exact ⟨middle, before, first, low', rfl⟩
    rw [ChunkScan.step, next, range, Option.toList_some, map_append, tiles_append]
    refine ⟨reached.toNat + 1, scanned, ?_⟩
    by_cases narrowed : reached < hi
    · have lt := UInt64.lt_iff_toNat_lt.mp narrowed
      have succ : (reached + 1).toNat = reached.toNat + 1 := by
        have small := hi.toNat_lt
        rw [UInt64.toNat_add]
        exact Nat.mod_eq_of_lt (by simp only [UInt64.reduceToNat]; omega)
      rw [if_pos narrowed, reverse_concat]
      refine ⟨succ, ?_, after⟩
      simp only [natRange, succ]
      omega
    · have same : reached = hi := UInt64.le_antisymm high (UInt64.not_lt.mp narrowed)
      rw [if_neg narrowed, same]
      exact after

theorem ChunkScan.partitions_start (fromBlock toBlock : UInt64) :
    (ChunkScan.start fromBlock toBlock).Partitions fromBlock toBlock := new_tiles fromBlock toBlock

def ReadsRange (ext : Externals) (eez : Address) (us : UInt64) (s : ChunkScan) (answers : ScanAnswers) : Prop :=
  ∀ posts, (scanNextBatchLogChunk ext eez us answers s.chunks).1 = .ok (some posts) →
    ∃ lo hi raw k, (s.step ext eez us answers).scanned = s.scanned ++ [(lo, hi)] ∧
      answers.getLogs k lo hi = .ok raw ∧ readLogs ext answers.provider eez us raw = .ok posts

variable {fromBlock toBlock : UInt64} {s : ChunkScan}

theorem ChunkScan.Partitions.oldest (parts : s.Partitions fromBlock toBlock)
    (last : s.chunks.ranges.getLast? = some (lo, hi)) : lo ≤ hi := by
  have mem : natRange (lo, hi) ∈ (s.scanned ++ s.chunks.ranges.reverse).map natRange :=
    mem_map_of_mem (mem_append_right _ (mem_reverse.mpr (mem_of_getLast? last)))
  exact UInt64.le_iff_toNat_le.mpr (Tiles.mem parts mem).2.1

theorem ChunkScan.Partitions.reads (parts : s.Partitions fromBlock toBlock) (answers : ScanAnswers) :
    ReadsRange ext eez us s answers := by
  intro posts ok
  obtain ⟨-, next, -⟩ | ⟨e, next, -⟩ | ⟨rest, lo, hi, found, reached, ranges, scan, next, range⟩ :=
    scanNext_cases ext eez us answers s.chunks
  · rw [next] at ok
    cases ok
  · rw [next] at ok
    cases ok
  · rw [next] at ok
    obtain rfl := Option.some.inj (Except.ok.inj ok)
    have le := parts.oldest (ranges ▸ getLast?_concat)
    obtain ⟨-, -, raw, k, answered, read⟩ := served_inside le scan
    refine ⟨lo, reached, raw, k, ?_, answered, read⟩
    rw [ChunkScan.step, range]
    rfl

theorem ChunkScan.step_of_error {answers : ScanAnswers} {e : Halt}
    (failed : (scanNextBatchLogChunk ext eez us answers s.chunks).1 = .error e) : s.step ext eez us answers = s := by
  obtain ⟨-, next, -⟩ | ⟨e, next, range⟩ | ⟨_, _, _, _, _, -, -, next, -⟩ := scanNext_cases ext eez us answers s.chunks
  · rw [next] at failed
    cases failed
  · rw [ChunkScan.step, next, range, Option.toList_none, append_nil]
  · rw [next] at failed
    cases failed

theorem ChunkScan.Partitions.complete (parts : s.Partitions fromBlock toBlock)
    (done : (scanNextBatchLogChunk ext eez us answers s.chunks).1 = .ok none) :
    Tiles fromBlock.toNat (s.scanned.map natRange) (stopOf fromBlock toBlock) := by
  obtain ⟨empty, -, -⟩ | ⟨e, next, -⟩ | ⟨_, _, _, _, _, -, -, next, -⟩ := scanNext_cases ext eez us answers s.chunks
  · rw [ChunkScan.Partitions, empty, reverse_nil, append_nil] at parts
    exact parts
  · rw [next] at done
    cases done
  · rw [next] at done
    cases done

end

/-- Over any history of calls that fail, succeed or are narrowed, the scanned
ranges and then the pending ones tile `[fromBlock, toBlock]`. A call that
succeeds read the range it adds, one that fails changes nothing, the requests
of a call shrink strictly within its range, and once nothing is pending the
scanned ranges are all of `[fromBlock, toBlock]`. -/
theorem chunkScan_partitions (ext : Externals) (eez : Address) (us fromBlock toBlock : UInt64)
    (calls : List ScanAnswers) :
    Throughout (ChunkScan.step ext eez us) (ChunkScan.Partitions fromBlock toBlock) (.start fromBlock toBlock) calls ∧
    Along (ChunkScan.step ext eez us) (fun s answers => ReadsRange ext eez us s answers ∧
      (∀ e, (scanNextBatchLogChunk ext eez us answers s.chunks).1 = .error e → s.step ext eez us answers = s) ∧
      (∀ lo hi, s.chunks.ranges.getLast? = some (lo, hi) → Narrows answers lo 0 hi (requested answers lo 0 hi)) ∧
      ((scanNextBatchLogChunk ext eez us answers s.chunks).1 = .ok none →
        Tiles fromBlock.toNat (s.scanned.map natRange) (stopOf fromBlock toBlock)))
      (.start fromBlock toBlock) calls := by
  have start := ChunkScan.partitions_start fromBlock toBlock
  have allowed : Along (ChunkScan.step ext eez us) (fun _ _ => True) (.start fromBlock toBlock) calls :=
    along_of_each fun _ _ _ => trivial
  have keep : ∀ {s answers}, ChunkScan.Partitions fromBlock toBlock s → True →
      (s.step ext eez us answers).Partitions fromBlock toBlock := fun parts _ => parts.step _
  refine ⟨throughout_of_invariant keep start allowed, along_of_invariant keep ?_ start allowed⟩
  intro s answers parts _
  exact ⟨parts.reads answers, fun e failed => ChunkScan.step_of_error failed,
    fun lo hi last => requested_narrows (parts.oldest last), parts.complete⟩

def refusingOnce : ScanAnswers where
  getLogs := fun k _ _ => if k = 0 then .error "Too many results" else .ok []
  provider := ⟨fun _ _ => .ok none, fun _ _ _ => .ok []⟩

def serving : ScanAnswers := { refusingOnce with getLogs := fun _ _ _ => .ok [] }

/-- The last two blocks there can be: the first call is narrowed to one of them,
the second fails on the other, the third scans it. -/
def topScan : ChunkScan :=
  [refusingOnce, refusingOnce, serving].foldl (ChunkScan.step zeroExternals 0 1)
    (.start 18446744073709551614 18446744073709551615)

theorem chunkScan_partitions_top :
    topScan.scanned = [(18446744073709551614, 18446744073709551614), (18446744073709551615, 18446744073709551615)] ∧
      topScan.Partitions 18446744073709551614 18446744073709551615 :=
  ⟨by decide +kernel, (chunkScan_partitions zeroExternals 0 1 18446744073709551614 18446744073709551615
    [refusingOnce, refusingOnce, serving]).1.last⟩

end Eez.Scan
