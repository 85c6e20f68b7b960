import Replay.Proofs.Pool.Coherence
import Replay.Proofs.Recovery.Lookup
set_option autoImplicit false

namespace Replay.Recovery

def Source.Coherent (source : Source) : Prop :=
  ∀ turn key found, source.lookup turn key = some found → found.Coherent

namespace Strategy

def Coherent (s : Strategy) : Prop :=
  ∀ c : Context, (∀ source ∈ c.localSources, source.Coherent) →
    ∀ found, (s.attempt c).result.recovered = some found → found.Coherent

theorem coherent_xmlRepair : xmlRepair.Coherent := by
  intro c _ s hs
  obtain ⟨old, -, rfl⟩ := proposed_xmlRepair hs
  exact (old.coherent_withContent _).repairedBy _ _

theorem coherent_cacheLookup {shared : List Source} (h : ∀ source ∈ shared, source.Coherent) :
    (cacheLookup shared).Coherent := by
  intro c hlocal s hs
  obtain ⟨key, name, found, -, hfound, rfl⟩ := proposed_cacheLookup hs
  rw [findSnapshot_eq] at hfound
  obtain ⟨source, hmem, hlookup⟩ := Source.exists_of_firstAnswer hfound
  have hsource : source.Coherent := (List.mem_append.mp hmem).elim (hlocal source) (h source)
  exact ((hsource _ key found hlookup).repairedBy .cacheLookup c.now).of_eq rfl rfl

theorem coherent_deviceAdaptation : deviceAdaptation.Coherent := by
  intro c _ s hs
  obtain ⟨target, old, -, -, rfl⟩ := proposed_deviceAdaptation hs
  have hadapted := (old.coherent_withContent (adaptedContent old target).1).repairedBy
    .deviceAdaptation c.now
  exact hadapted.of_eq rfl rfl

theorem coherent_regeneration : regeneration.Coherent := by
  intro c _ s hs
  obtain rfl := proposed_regeneration hs
  exact Snapshot.coherent_ofContent rfl

theorem coherent_manualGuidance : manualGuidance.Coherent := by
  intro c _ s hs
  rw [recovered_manualGuidance] at hs
  cases hs

end Strategy

theorem Chain.coherent_standard {sources : List Source} (h : ∀ source ∈ sources, source.Coherent)
    (allowRegeneration : Bool) {c : Context} {strategy : Strategy}
    (hstrategy : strategy ∈ (standard sources allowRegeneration).plan c.failure c.issues ∨
      strategy = (standard sources allowRegeneration).fallback) : strategy.Coherent := by
  obtain hplan | rfl := hstrategy
  · obtain ⟨t, -, hlink⟩ := mem_plan hplan
    obtain rfl | rfl | rfl | rfl := mem_standard hlink
    · exact Strategy.coherent_xmlRepair
    · exact Strategy.coherent_cacheLookup h
    · exact Strategy.coherent_deviceAdaptation
    · exact Strategy.coherent_regeneration
  · exact Strategy.coherent_manualGuidance

namespace Engine

theorem coherent_localSources {e : Engine} {script : Script} (h : script.Coherent) {c : Context}
    (hc : c ∈ e.failing script) : ∀ source ∈ c.localSources, source.Coherent := by
  rw [localSources_of_mem_failing hc]
  refine List.forall_mem_singleton.mpr fun turn key found hfound => ?_
  obtain ⟨j, step, hj, hs, -⟩ := mem_siblings (List.mem_of_find?_eq_some hfound)
  exact h.restore step (List.mem_of_getElem? hj) found hs

/-- If every snapshot with content of a script and of the sources bears the hash of its content, so
does every one in the pooled and in the restored script, and every one that a pass with the standard
chain puts into a step or only proposes. Whatever a pool holds, restoring gives a step no content
but one with the hash that the step refers to. -/
theorem coherent_throughout {sources : List Source} (hsources : ∀ source ∈ sources, source.Coherent)
    {script : Script} (hscript : script.Coherent) :
    script.optimize.Coherent ∧ script.restore.Coherent ∧ script.optimize.restore.Coherent ∧
    (∀ (e : Engine) (allowRegeneration : Bool), e.chain = .standard sources allowRegeneration →
      ∀ cancelled : Progress → Bool,
        (e.run cancelled script).1.recoveredScript.Coherent ∧
        ∀ o ∈ (e.run cancelled script).1.stepOutcomes, ∀ r ∈ o.attempts,
          ∀ s, r.recovered = some s → s.Coherent) ∧
    ∀ (other : Script) (i : Nat) (before after : Step), other.steps[i]? = some before →
      other.restore.steps[i]? = some after → before.inline = none →
      ∀ content, after.inline = some content →
        ∃ s, before.snapshot = some s ∧ s.hash = .of content := by
  refine ⟨hscript.optimize, hscript.restore, hscript.optimize.restore, ?_,
    fun other i before after hbefore hafter hnone content hcontent =>
      other.hash_of_inline_restore hbefore hafter hnone hcontent⟩
  intro e allowRegeneration hchain cancelled
  refine e.forall_recovered cancelled script hscript.restore fun c hc strategy hstrategy s hs => ?_
  rw [hchain] at hstrategy
  exact Chain.coherent_standard hsources allowRegeneration hstrategy c
    (coherent_localSources hscript hc) s hs

/-- A step on the page of the shelf, one with a torn content, and a reference to an entry whose
content was exchanged. -/
def tampered : Script where
  steps :=
    [{ id := "cart", params := [("pageTitle", .string "Cart")] },
      { id := "torn", snapshot := some (Snapshot.withContent {} "<hierarchy><node/>") },
      { id := "other", snapshot := some { hash := .of "<a/>" } }]
  pool := some [(.of "<a/>", ⟨"<b/>", none, 1⟩)]

def hashedShelf : Source := ⟨"shelf", fun _ _ => some (Snapshot.withContent {} smallPage)⟩

theorem coherent_throughout_tampered :
    (∀ source ∈ [hashedShelf], source.Coherent) ∧ tampered.Coherent ∧
      tampered.optimize.restore.Coherent ∧
      ((standardFor forSmallPages [hashedShelf] none ⟨0, 0⟩).run (fun _ => false)
        tampered).1.recoveredScript.Coherent := by
  have hsources : ∀ source ∈ [hashedShelf], source.Coherent := by
    refine List.forall_mem_singleton.mpr fun turn key found hfound => ?_
    obtain rfl := Option.some.inj hfound
    exact Snapshot.coherent_withContent _ _
  have hscript : tampered.Coherent := by
    intro step hstep s hs
    simp only [tampered, List.mem_cons, List.not_mem_nil, or_false] at hstep
    obtain rfl | rfl | rfl := hstep
    · cases hs
    · obtain rfl := Option.some.inj hs
      exact Snapshot.coherent_withContent _ _
    · obtain rfl := Option.some.inj hs
      exact Or.inl rfl
  obtain ⟨-, -, hboth, hrun, -⟩ := coherent_throughout hsources hscript
  exact ⟨hsources, hscript, hboth, (hrun _ _ rfl _).1⟩

end Engine

end Replay.Recovery
