import Replay.Proofs.Wire.Script
import Replay.Wire.Recovery
set_option autoImplicit false

namespace Replay

open Wire

theorem IssueCode.carries (depth : Nat) (c : IssueCode) : Carries depth toJson ofJson? c :=
  carries_name (fun c => by cases c <;> rfl) c

theorem IssueSeverity.carries (depth : Nat) (s : IssueSeverity) : Carries depth toJson ofJson? s :=
  carries_name (fun s => by cases s <;> rfl) s

theorem Issue.carries (i : Issue) : Carries 1 toJson ofJson? i := by
  have hcode : Carries 0 IssueCode.toJson IssueCode.ofJson? i.code := IssueCode.carries 0 i.code
  have hmessage : Carries 0 .string readString i.message := carries_string i.message
  have hseverity : Carries 0 IssueSeverity.toJson IssueSeverity.ofJson? i.severity :=
    IssueSeverity.carries 0 i.severity
  have hsuggestion (s : String) (_ : i.suggestion = some s) : Carries 0 .string readString s :=
    carries_string s
  refine carries_record (fun _ => rfl) rfl ?_ ?_
  · simp only [plainMembers_append, plainMembers_put, plainMembers_putSome]
    exact ⟨⟨⟨hcode.plain, hmessage.plain⟩, hseverity.plain⟩, fun s _ => .string s⟩
  · rw [required_found (by simp) hcode, required_found (by simp) hmessage,
      required_found (by simp) hseverity, optional_found rfl (by simp) hsuggestion]
    rfl

namespace Recovery

theorem FailureKind.carries (depth : Nat) (k : FailureKind) : Carries depth toJson ofJson? k :=
  carries_name (fun k => by cases k <;> rfl) k

theorem carries_texts (depth : Nat) (texts : List String) :
    Carries (depth + 1) (writeList .string) (readList readString) texts :=
  carries_list fun s _ => carries_string s

namespace Result

def Portable (r : Result) : Prop := ∀ s, r.recovered = some s → s.Portable

theorem carries {r : Result} (h : r.Portable) : Carries 4 toJson ofJson? r := by
  have hsuccess : Carries 3 .bool readBool r.success := carries_bool r.success
  have hstrategy : Carries 3 StrategyId.toJson StrategyId.ofJson? r.strategy :=
    StrategyId.carries 3 r.strategy
  have hrecovered (s : Snapshot) (hs : r.recovered = some s) :
      Carries 3 Snapshot.toJson Snapshot.ofJson? s := Snapshot.carries (h s hs)
  have hwarnings : Carries 3 (writeList .string) (readList readString) r.warnings :=
    carries_texts 2 r.warnings
  have hrecommendations : Carries 3 (writeList .string) (readList readString) r.recommendations :=
    carries_texts 2 r.recommendations
  refine carries_record (fun _ => rfl) rfl ?_ ?_
  · simp only [plainMembers_append, plainMembers_put, plainMembers_putSome]
    exact ⟨⟨⟨⟨hsuccess.plain, hstrategy.plain⟩, fun s hs => (hrecovered s hs).plain⟩,
      hwarnings.plain⟩, hrecommendations.plain⟩
  · rw [required_found (by simp) hsuccess, required_found (by simp) hstrategy,
      optional_found rfl (by simp) hrecovered, required_found (by simp) hwarnings,
      required_found (by simp) hrecommendations]
    rfl

end Result

namespace StepOutcome

structure Portable (o : StepOutcome) : Prop where
  index_lt : o.index < UInt64.size
  attempts : ∀ r ∈ o.attempts, r.Portable
  resolvedIssues_lt : o.resolvedIssues < UInt64.size

theorem carries {o : StepOutcome} (h : o.Portable) : Carries 6 toJson ofJson? o := by
  have hindex : Carries 5 (.nat ·) readNat64 o.index := carries_nat64 h.index_lt
  have hid : Carries 5 .string readString o.id := carries_string o.id
  have hfailure : Carries 5 FailureKind.toJson FailureKind.ofJson? o.failure :=
    FailureKind.carries 5 o.failure
  have hissues : Carries 5 (writeList Issue.toJson) (readList Issue.ofJson?) o.foundIssues :=
    carries_list fun i _ => (Issue.carries i).mono (by decide)
  have hattempts : Carries 5 (writeList Result.toJson) (readList Result.ofJson?) o.attempts :=
    carries_list fun r hr => Result.carries (h.attempts r hr)
  have hrecoveredBy (s : StrategyId) (_ : o.recoveredBy = some s) :
      Carries 5 StrategyId.toJson StrategyId.ofJson? s := StrategyId.carries 5 s
  have hresolved : Carries 5 (.nat ·) readNat64 o.resolvedIssues :=
    carries_nat64 h.resolvedIssues_lt
  refine carries_record (fun _ => rfl) rfl ?_ ?_
  · simp only [plainMembers_append, plainMembers_put]
    exact ⟨⟨⟨⟨⟨⟨hindex.plain, hid.plain⟩, hfailure.plain⟩, hissues.plain⟩, hattempts.plain⟩,
      plain_writeOption hrecoveredBy⟩, hresolved.plain⟩
  · rw [required_found (by simp) hindex, required_found (by simp) hid,
      required_found (by simp) hfailure, required_found (by simp) hissues,
      required_found (by simp) hattempts, optional_nullable rfl (by simp) hrecoveredBy,
      required_found (by simp) hresolved]
    rfl

end StepOutcome

namespace Report

structure Portable (depth : Nat) (r : Report) : Prop where
  foundIssues_lt : r.foundIssues < UInt64.size
  resolvedIssues_lt : r.resolvedIssues < UInt64.size
  confidenceScore_lt : r.confidenceScore < UInt32.size
  stepOutcomes : ∀ o ∈ r.stepOutcomes, o.Portable
  recoveredScript : r.recoveredScript.Portable (depth + 1)
  evaluatedAt : r.evaluatedAt.Proper

theorem carries {depth : Nat} {r : Report} (h : r.Portable depth)
    (hint : r.recoveredScript.Integral) : Carries (depth + 8) toJson ofJson? r := by
  have hfound : Carries (depth + 7) (.nat ·) readNat64 r.foundIssues :=
    carries_nat64 h.foundIssues_lt
  have hresolved : Carries (depth + 7) (.nat ·) readNat64 r.resolvedIssues :=
    carries_nat64 h.resolvedIssues_lt
  have happlied : Carries (depth + 7) (writeList StrategyId.toJson) (readList StrategyId.ofJson?)
      r.appliedStrategies := carries_list fun s _ => StrategyId.carries (depth + 6) s
  have hremaining : Carries (depth + 7) (writeList .string) (readList readString)
      r.remainingIssues := carries_texts (depth + 6) r.remainingIssues
  have hscore : Carries (depth + 7) (.nat ·) readNat32 r.confidenceScore :=
    carries_nat32 h.confidenceScore_lt
  have hrecommendations : Carries (depth + 7) (writeList .string) (readList readString)
      r.recommendations := carries_texts (depth + 6) r.recommendations
  have houtcomes : Carries (depth + 7) (writeList StepOutcome.toJson)
      (readList StepOutcome.ofJson?) r.stepOutcomes :=
    carries_list fun o ho => (StepOutcome.carries (h.stepOutcomes o ho)).mono (by omega)
  have hcancelled : Carries (depth + 7) .bool readBool r.cancelled := carries_bool r.cancelled
  have hscript : Carries (depth + 7) Script.toJson Script.ofJson? r.recoveredScript :=
    Script.carries h.recoveredScript hint
  have htime : Carries (depth + 7) writeInstant readInstant r.evaluatedAt :=
    carries_instant h.evaluatedAt
  refine carries_record (fun _ => rfl) rfl ?_ ?_
  · simp only [plainMembers_append, plainMembers_put]
    exact ⟨⟨⟨⟨⟨⟨⟨⟨⟨hfound.plain, hresolved.plain⟩, happlied.plain⟩, hremaining.plain⟩,
      hscore.plain⟩, hrecommendations.plain⟩, houtcomes.plain⟩, hcancelled.plain⟩,
      hscript.plain⟩, htime.plain⟩
  · rw [required_found (by simp) hfound, required_found (by simp) hresolved,
      required_found (by simp) happlied, required_found (by simp) hremaining,
      required_found (by simp) hscore, required_found (by simp) hrecommendations,
      required_found (by simp) houtcomes, required_found (by simp) hcancelled,
      required_found (by simp) hscript, required_found (by simp) htime]
    rfl

theorem portable_recoveredScript_of_json {depth : Nat} {j : Json} {r : Report}
    (hj : j.Result (depth + 7)) (h : ofJson? j = some r) : r.recoveredScript.Portable depth := by
  obtain ⟨m, hm, h⟩ := Option.bind_eq_some_iff.mp h
  have hfields := result_of_fields hj hm
  obtain ⟨foundIssues, -, h⟩ := Option.bind_eq_some_iff.mp h
  obtain ⟨resolvedIssues, -, h⟩ := Option.bind_eq_some_iff.mp h
  obtain ⟨appliedStrategies, -, h⟩ := Option.bind_eq_some_iff.mp h
  obtain ⟨remainingIssues, -, h⟩ := Option.bind_eq_some_iff.mp h
  obtain ⟨confidenceScore, -, h⟩ := Option.bind_eq_some_iff.mp h
  obtain ⟨recommendations, -, h⟩ := Option.bind_eq_some_iff.mp h
  obtain ⟨stepOutcomes, -, h⟩ := Option.bind_eq_some_iff.mp h
  obtain ⟨cancelled, -, h⟩ := Option.bind_eq_some_iff.mp h
  obtain ⟨recoveredScript, hscript, h⟩ := Option.bind_eq_some_iff.mp h
  obtain ⟨evaluatedAt, -, h⟩ := Option.bind_eq_some_iff.mp h
  obtain rfl := Option.some.inj h
  exact of_required hfields Script.portable_of_json hscript

end Report

end Recovery

end Replay
