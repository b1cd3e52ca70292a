import CollectionLoops.Proofs.MethodLoops

/-!
What the callback of a method is bound to. Main statement: only the folds do not bind it.
-/
namespace CollectionLoops

/-- Whether a loop binds its callback, by the characters of the texts it is assembled from. -/
theorem LoopSpec.bindsCallback_compile {σ : Type} (p : LoopSpec σ) (name : String)
    {a b c d e f g : List Char} (ha : p.prologueFragment.source.toList = a)
    (hb : "\nfor (i = 0, n = ".toList = b) (hc : p.countFragment.source.toList = c)
    (hd : "; i < n; ++i) \x7b ".toList = d) (he : p.bodyFragment.source.toList = e)
    (hf : " \x7d\n".toList = f) (hg : p.epilogueFragment.source.toList = g) :
    (p.compile name).bindsCallback =
      decide (Source.branchText (a ++ b ++ c ++ d ++ e ++ f ++ g) ≠
        a ++ b ++ c ++ d ++ e ++ f ++ g) := by
  have htext : p.assemble.toList = a ++ b ++ c ++ d ++ e ++ f ++ g := by
    rw [LoopSpec.assemble, LoopSpec.assembleTexts]
    simp only [String.toList_append, ha, hb, hc, hd, he, hf, hg]
  change (Source.branchOnContext p.assemble != p.assemble) = _
  rw [bne, Bool.eq_iff_iff, Source.branchOnContext, ← htext]
  simp [String.ext_iff]

/-- A context that was not passed binds to no more than one that is falsy. -/
theorem Invoker.binding?_resolve_getD (context : Option Value) :
    (Invoker.resolve (context.getD .undefined)).binding? = context.filter Value.isTruthy := by
  cases context with
  | none => rfl
  | some v =>
    cases hv : v.isTruthy with
    | false => rw [Option.getD_some, resolve_of_not_isTruthy hv, Option.filter_some, hv]; rfl
    | true => rw [Option.getD_some, resolve_of_isTruthy hv, Option.filter_some, hv]; rfl

theorem Method.bindsCallback_callLoop (m : Method) :
    m.callLoop.bindsCallback = (m != .reduce && m != .reduceRight) := by
  change (m.spec.compile m.name).bindsCallback = _
  cases m
  all_goals
    rw [LoopSpec.bindsCallback_compile]
    -- a literal is the list of its characters at once, which evaluation would decode one by one
    case ha | hb | hc | hd | he | hf | hg => exact String.toList_ofList
    decide +kernel

end CollectionLoops
