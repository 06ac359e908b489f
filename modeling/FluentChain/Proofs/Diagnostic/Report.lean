import Mathlib.Data.List.Induction
import Mathlib.Data.List.Nodup
import Mathlib.Data.Prod.Lex
import FluentChain.Diagnostic.Report
import FluentChain.Proofs.Syntax.Forest

/-!
# Reports on what was recorded

A report is a function of what was recorded for each expression: it has one entry for each expression that was
touched, in the order of their places, with the messages in the order they were recorded (`Report.Tells`).  No two
lists of entries tell the same steps (`Report.Tells.entries_unique`), so it does not matter how the steps for
different expressions are interleaved (`Diagnostics.report_run`).
-/

namespace FluentChain

namespace Diagnostics

/-! ### Recording -/

/-- A step of recording: an expression is examined, or a diagnostic is recorded for it. -/
inductive Step
  | mark (n : NodeId)
  | push (n : NodeId) (d : Diagnostic)
deriving DecidableEq, Repr

namespace Step

/-- The expression that a step is about. -/
def expr : Step → NodeId
  | .mark n | .push n _ => n

def diagnostic? : Step → Option Diagnostic
  | .mark _ => none
  | .push _ d => some d

def after (ds : Diagnostics) : Step → Diagnostics
  | .mark n => ds.mark n
  | .push n d => ds.push n d

end Step

/-- What is recorded in some steps. -/
def run (steps : List Step) : Diagnostics := steps.foldl Step.after {}

/-- The diagnostics that some steps record for an expression. -/
def recordedAt (steps : List Step) (n : NodeId) : List Diagnostic :=
  (steps.filter (·.expr == n)).filterMap Step.diagnostic?

theorem run_concat (steps : List Step) (s : Step) : run (steps ++ [s]) = s.after (run steps) := by
  simp [run]

theorem recordedAt_concat (steps : List Step) (s : Step) (n : NodeId) :
    recordedAt (steps ++ [s]) n = recordedAt steps n ++ if n = s.expr then s.diagnostic?.toList else [] := by
  by_cases h : n = s.expr
  · cases hd : s.diagnostic? <;> simp [recordedAt, h, hd]
  · simp [recordedAt, h, Ne.symm h]

theorem mem_checked_after {ds : Diagnostics} {s : Step} {n : NodeId} :
    n ∈ (s.after ds).checked ↔ n ∈ ds.checked ∨ n = s.expr := by
  have hmark := isChecked_mark ds s.expr n
  simp only [isChecked, decide_eq_true_eq] at hmark
  cases s with
  | mark m => exact hmark
  | push m d => exact hmark

theorem nodup_checked_mark {ds : Diagnostics} (h : ds.checked.Nodup) (n : NodeId) : (ds.mark n).checked.Nodup := by
  unfold mark
  split
  · exact h
  · simpa using h.concat ‹_›

theorem mem_checked_run {steps : List Step} {n : NodeId} : n ∈ (run steps).checked ↔ ∃ s ∈ steps, s.expr = n := by
  induction steps using List.reverseRecOn with
  | nil => simp [run]
  | append_singleton steps s ih =>
    rw [run_concat, mem_checked_after, ih]
    simp [or_and_right, exists_or, eq_comm]

theorem nodup_checked_run (steps : List Step) : (run steps).checked.Nodup := by
  induction steps using List.reverseRecOn with
  | nil => exact List.nodup_nil
  | append_singleton steps s ih =>
    rw [run_concat]
    cases s with
    | mark n => exact nodup_checked_mark ih n
    | push n d => exact nodup_checked_mark ih n

theorem foundAt_run (steps : List Step) (n : NodeId) : (run steps).foundAt n = recordedAt steps n := by
  induction steps using List.reverseRecOn with
  | nil => rfl
  | append_singleton steps s ih =>
    rw [run_concat, recordedAt_concat]
    cases s with
    | mark m => simp [Step.after, Step.diagnostic?, ih]
    | push m d =>
      rw [Step.after, foundAt_push, ih, Step.expr, Step.diagnostic?, Option.toList_some]
      split
      · rfl
      · rw [List.append_nil]

theorem found_run (steps : List Step) : (run steps).found.map (·.2) = steps.filterMap Step.diagnostic? := by
  induction steps using List.reverseRecOn with
  | nil => rfl
  | append_singleton steps s ih =>
    rw [run_concat, List.filterMap_append, ← ih]
    cases s with
    | mark m => simp [Step.after, Step.diagnostic?]
    | push m d => simp [Step.after, Step.diagnostic?, push]

/-! ### Order -/

/-- Where an expression stands in a report: by file, line and column, and then by its own number. -/
def rank (p : Program) (n : NodeId) : ℕ ×ₗ ℕ ×ₗ ℕ ×ₗ ℕ :=
  toLex ((p.pos n).file, toLex ((p.pos n).line, toLex ((p.pos n).col, n)))

variable {p : Program}

theorem rank_injective : Function.Injective (rank p) := by
  intro a b h
  simp only [rank, EmbeddingLike.apply_eq_iff_eq, Prod.mk.injEq] at h
  exact h.2.2.2

theorem precedes_iff {a b : NodeId} : precedes p a b = true ↔ rank p a ≤ rank p b := by
  simp [precedes, rank, Prod.Lex.toLex_le_toLex]

theorem sorted_perm (ds : Diagnostics) : (ds.sorted p).Perm ds.checked := List.mergeSort_perm _ _

/-- Expressions that are examined once each have increasing ranks. -/
theorem sorted_increasing {ds : Diagnostics} (h : ds.checked.Nodup) :
    (ds.sorted p).Pairwise fun a b => rank p a < rank p b := by
  have hle : (ds.sorted p).Pairwise fun a b => precedes p a b = true := by
    refine List.pairwise_mergeSort (fun a b c hab hbc => ?_) (fun a b => ?_) ds.checked
    · rw [precedes_iff] at *
      exact hab.trans hbc
    · rw [Bool.or_eq_true, precedes_iff, precedes_iff]
      exact le_total _ _
  refine (hle.and (ds.sorted_perm.nodup_iff.2 h)).imp fun ⟨hab, hne⟩ => ?_
  exact lt_of_le_of_ne (precedes_iff.1 hab) fun heq => hne (rank_injective heq)

/-! ### Counting -/

/-- Going through the keys, each of them once, goes through all entries. -/
theorem flatMap_filter_perm {α : Type} {keys : List NodeId} {entries : List (NodeId × α)} (hnodup : keys.Nodup)
    (h : ∀ e ∈ entries, e.1 ∈ keys) : (keys.flatMap fun n => entries.filter (·.1 == n)).Perm entries := by
  induction entries with
  | nil => simp
  | cons e entries ih =>
    obtain ⟨before, after, rfl⟩ := List.append_of_mem (h e List.mem_cons_self)
    have hrest : ∀ keys : List NodeId, e.1 ∉ keys → (keys.flatMap fun n => (e :: entries).filter (·.1 == n)) =
        keys.flatMap fun n => entries.filter (·.1 == n) := by
      intro keys he
      refine List.flatMap_congr fun n hn => ?_
      have hne : e.1 ≠ n := fun heq => he (heq ▸ hn)
      simp [hne]
    have hperm := ih fun d hd => h d (List.mem_cons_of_mem e hd)
    have hapart := List.nodup_middle.1 hnodup
    rw [List.nodup_cons, List.mem_append, not_or] at hapart
    rw [List.flatMap_append, List.flatMap_cons] at hperm ⊢
    rw [hrest before hapart.1.1, hrest after hapart.1.2, List.filter_cons_of_pos (by simp)]
    exact List.perm_middle.trans (hperm.cons e)

theorem inOrder_perm {ds : Diagnostics} (hnodup : ds.checked.Nodup) (h : ∀ e ∈ ds.found, e.1 ∈ ds.checked) :
    (ds.inOrder p).Perm (ds.found.map (·.2)) := by
  have hsorted : (ds.sorted p).Nodup := ds.sorted_perm.nodup_iff.2 hnodup
  have hall := flatMap_filter_perm hsorted fun e he => ds.sorted_perm.mem_iff.2 (h e he)
  have hmap := hall.map (·.2)
  rwa [List.map_flatMap] at hmap

theorem inOrder_run_perm (steps : List Step) :
    ((run steps).inOrder p).Perm (steps.filterMap Step.diagnostic?) := by
  rw [← found_run]
  refine inOrder_perm (nodup_checked_run steps) fun e he => ?_
  rw [mem_checked_run]
  have hat : e.2 ∈ (run steps).foundAt e.1 := List.mem_map_of_mem (List.mem_filter.2 ⟨he, beq_self_eq_true _⟩)
  rw [foundAt_run] at hat
  obtain ⟨s, hs, -⟩ := List.mem_filterMap.1 hat
  obtain ⟨hs, hexpr⟩ := List.mem_filter.1 hs
  exact ⟨s, hs, eq_of_beq hexpr⟩

end Diagnostics

/-! ### Reports -/

/-- The report has one entry for each expression that some steps touch, in the order of their ranks, with what the
steps record for it. -/
structure Report.Tells (p : Program) (steps : List Diagnostics.Step) (r : Report) : Prop where
  nodup : (r.entries.map (·.expr)).Nodup
  mem_iff : ∀ n, n ∈ r.entries.map (·.expr) ↔ ∃ s ∈ steps, s.expr = n
  increasing : r.entries.Pairwise fun a b => Diagnostics.rank p a.expr < Diagnostics.rank p b.expr
  location : ∀ e ∈ r.entries, e.location = p.displayPos (p.pos e.expr)
  messages : ∀ e ∈ r.entries, e.messages = (Diagnostics.recordedAt steps e.expr).map (Diagnostic.message p)

namespace Report

variable {p : Program} {steps steps' : List Diagnostics.Step} {r r' : Report}

/-- What is recorded for each expression is all that counts. -/
theorem Tells.congr (h : r.Tells p steps)
    (hsame : ∀ n, steps'.filter (·.expr == n) = steps.filter (·.expr == n)) : r.Tells p steps' where
  nodup := h.nodup
  mem_iff n := by
    have htouched : ∀ steps : List Diagnostics.Step, (∃ s ∈ steps, s.expr = n) ↔ steps.filter (·.expr == n) ≠ [] := by
      simp [List.filter_eq_nil_iff]
    rw [h.mem_iff, htouched, htouched, hsame]
  increasing := h.increasing
  location := h.location
  messages e he := by rw [h.messages e he, Diagnostics.recordedAt, Diagnostics.recordedAt, hsame]

theorem Tells.ranks (h : r.Tells p steps) :
    (r.entries.map (·.expr)).Pairwise fun a b => Diagnostics.rank p a < Diagnostics.rank p b :=
  List.pairwise_map.2 h.increasing

/-- An entry is known by its expression. -/
theorem Tells.entries_eq (h : r.Tells p steps) : r.entries = (r.entries.map (·.expr)).map fun n =>
    ⟨n, p.displayPos (p.pos n), (Diagnostics.recordedAt steps n).map (Diagnostic.message p)⟩ := by
  rw [List.map_map]
  have hmap : ∀ e ∈ r.entries, (⟨e.expr, p.displayPos (p.pos e.expr),
      (Diagnostics.recordedAt steps e.expr).map (Diagnostic.message p)⟩ : ReportEntry) = e := by
    intro e he
    rw [← h.location e he, ← h.messages e he]
  exact (List.map_id _).symm.trans (List.map_congr_left fun e he => (hmap e he).symm)

/-- No other entries tell the same. -/
theorem Tells.entries_unique (h : r.Tells p steps) (h' : r'.Tells p steps) : r.entries = r'.entries := by
  have hexprs : r.entries.map (·.expr) = r'.entries.map (·.expr) := by
    refine List.Perm.eq_of_pairwise (fun a b _ _ hab hba => absurd hab (lt_asymm hba)) h.ranks h'.ranks ?_
    rw [List.perm_ext_iff_of_nodup h.nodup h'.nodup]
    exact fun n => (h.mem_iff n).trans (h'.mem_iff n).symm
  rw [h.entries_eq, h'.entries_eq, hexprs]

end Report

namespace Diagnostics

variable {p : Program}

theorem report_tells (p : Program) (steps : List Step) (verbose : Bool) :
    ((run steps).report p verbose).Tells p steps := by
  have hexprs : ((run steps).report p verbose).entries.map (·.expr) = (run steps).sorted p := by
    simp [report, Function.comp_def]
  refine ⟨?_, fun n => ?_, ?_, fun e he => ?_, fun e he => ?_⟩
  · rw [hexprs]
    exact (sorted_perm _).nodup_iff.2 (nodup_checked_run steps)
  · rw [hexprs, (sorted_perm _).mem_iff, mem_checked_run]
  · have hincreasing := sorted_increasing (p := p) (nodup_checked_run steps)
    rwa [← hexprs, List.pairwise_map] at hincreasing
  · obtain ⟨n, -, rfl⟩ := List.mem_map.1 he
    rfl
  · obtain ⟨n, -, rfl⟩ := List.mem_map.1 he
    simp only [foundAt_run]

/-- The messages of a report, entry by entry. -/
theorem messages_report (ds : Diagnostics) (verbose : Bool) :
    (ds.report p verbose).entries.flatMap (·.messages) = (ds.inOrder p).map (Diagnostic.message p) := by
  simp [report, inOrder, List.flatMap_map, List.map_flatMap]

theorem size_report_run (steps : List Step) (verbose : Bool) :
    ((run steps).report p verbose).size = (steps.filterMap Step.diagnostic?).length := by
  rw [Report.size, messages_report, List.length_map, (inOrder_run_perm steps).length_eq]

theorem size_run (steps : List Step) : (run steps).size = (steps.filterMap Step.diagnostic?).length := by
  rw [size, ← found_run, List.length_map]

/-- A report tells what was recorded for each expression, and shows the messages of its entries.  Steps that are the
same for each expression have the same report, however they are interleaved. -/
theorem report_run (p : Program) (steps : List Step) :
    (∀ verbose, ((run steps).report p verbose).Tells p steps ∧
      ((run steps).report p verbose).size = (run steps).size ∧
      (((run steps).report p verbose).isClean = true ↔ ∀ s ∈ steps, s.diagnostic? = none)) ∧
    (run steps).size = (steps.filterMap Step.diagnostic?).length ∧
    ((run steps).report p false).lines = ((run steps).report p false).entries.flatMap (·.messages) ∧
    ((run steps).report p false).lines = ((run steps).inOrder p).map (Diagnostic.message p) ∧
    ((run steps).report p true).lines = (((run steps).report p true).entries.flatMap fun e =>
      (e.location ++ if recordedAt steps e.expr = [] then " ok" else " has error:") :: e.messages.map ("\t" ++ ·)) ∧
    ∀ steps', (∀ n, steps'.filter (·.expr == n) = steps.filter (·.expr == n)) → ∀ verbose,
      (run steps').report p verbose = (run steps).report p verbose := by
  refine ⟨fun verbose => ⟨report_tells p steps verbose, ?_, ?_⟩, size_run steps, rfl, messages_report _ false, ?_,
    fun steps' hsame verbose => ?_⟩
  · rw [size_report_run, size_run]
  · rw [Report.isClean, size_report_run, beq_iff_eq, List.length_eq_zero_iff, List.filterMap_eq_nil_iff]
  · refine List.flatMap_congr fun e he => ?_
    have hmessages := (report_tells p steps true).messages e he
    have hnone : e.messages.isEmpty = true ↔ recordedAt steps e.expr = [] := by
      rw [hmessages, List.isEmpty_iff, List.map_eq_nil_iff]
    have hverbose : ((run steps).report p true).verbose = true := rfl
    simp only [ReportEntry.lines, hverbose, ↓reduceIte, hnone]
  · have hentries := (report_tells p steps' verbose).entries_unique ((report_tells p steps verbose).congr hsame)
    exact congrArg (Report.mk · verbose) hentries

/-- An expression that is in order, and one behind it with two diagnostics. -/
def Step.sample : List Step :=
  [.mark 7, .push 11 ⟨.fieldNotFound, ⟨0, 1, 32⟩, none⟩, .push 11 ⟨.notAStructField, ⟨0, 1, 32⟩, none⟩]

/-- The same steps for each expression, the expressions taking turns. -/
def Step.sampleInTurn : List Step :=
  [.push 11 ⟨.fieldNotFound, ⟨0, 1, 32⟩, none⟩, .mark 7, .push 11 ⟨.notAStructField, ⟨0, 1, 32⟩, none⟩]

theorem report_run_sample :
    (∀ n, Step.sampleInTurn.filter (·.expr == n) = Step.sample.filter (·.expr == n)) ∧
    (run Step.sampleInTurn).report .sample true = (run Step.sample).report .sample true ∧
    ((run Step.sample).report .sample true).lines =
      ["a:1:19 ok", "a:1:32 has error:", "\ta:1:32 field not found in <unknown>",
        "\ta:1:32 is not a struct field"] := by
  have hsame : ∀ n, Step.sampleInTurn.filter (·.expr == n) = Step.sample.filter (·.expr == n) := by
    intro n
    rcases eq_or_ne 11 n with rfl | hn
    · rfl
    · simp [Step.sampleInTurn, Step.sample, List.filter_cons, Step.expr, hn]
  -- the expressions are examined in the order of their places, so sorting leaves them as they are
  have hsorted : (run Step.sample).sorted .sample = [7, 11] := List.mergeSort_of_pairwise (by decide +kernel)
  refine ⟨hsame, (report_run .sample Step.sample).2.2.2.2.2 _ hsame true, ?_⟩
  rw [report, hsorted]
  decide +kernel

end Diagnostics

end FluentChain
