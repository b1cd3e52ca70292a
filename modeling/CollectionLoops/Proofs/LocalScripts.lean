import CollectionLoops.Proofs.LocalOperations

/-!
Scripts act only on what they can reach. What the functions of a script share gives access to the
variables and to the values that stand in the bodies of functions. Main statement: every function of a
script acts only on what can be reached from these, its arguments and its binding, however deep it calls
other functions and loops.
-/
namespace CollectionLoops.Script

mutual

/-- The values that stand in an expression. -/
def Expr.constants : Expr → Set Value
  | .constant v => {v}
  | .raise fault => fault.values
  | .array es | .arrayLike es | .sequence es | .concat es => listConstants es
  | .object properties => propertyConstants properties
  | .function _ _ e | .assign _ e | .throw e | .unary _ e => e.constants
  | .attempt e₁ e₂ | .binary _ e₁ e₂ => e₁.constants ∪ e₂.constants
  | .cond e₁ e₂ e₃ | .put e₁ e₂ e₃ => e₁.constants ∪ e₂.constants ∪ e₃.constants
  | .call e es => e.constants ∪ listConstants es
  | .callBound e₁ e₂ es | .invoke e₁ e₂ es => e₁.constants ∪ e₂.constants ∪ listConstants es
  | .loop _ e₁ e₂ second => e₁.constants ∪ e₂.constants ∪ optionConstants second
  | .repeated .. | .range _ | .argument _ | .argumentCount | .binding | .variable _ => ∅

def listConstants : List Expr → Set Value
  | [] => ∅
  | e :: es => e.constants ∪ listConstants es

def propertyConstants : List (String × Expr) → Set Value
  | [] => ∅
  | (_, e) :: es => e.constants ∪ propertyConstants es

def optionConstants : Option Expr → Set Value
  | none => ∅
  | some e => e.constants

end

/-- What the variables hold, and what stands in the bodies of the functions. -/
def State.roots (a : State) : Set Value :=
  {v | v ∈ a.globals.entries.map Prod.snd} ∪ {v | ∃ f ∈ a.functions, v ∈ f.body.constants}

def Activation.values (a : Activation) : Set Value := {v | v ∈ a.args} ∪ {a.binding}

theorem local_newFunction (f : Function) :
    (newFunction f).Local State.roots f.body.constants ({·}) := by
  refine Run.Local.bind Run.local_host fun b _ => (Run.local_updateHost ?_).bind fun _ _ =>
    Run.local_pure (by simp [Value.isContainer])
  rintro c v (hv | ⟨g, hg, hv⟩) -
  · exact .inl (.inl hv)
  · rcases Array.mem_push.1 hg with hg | rfl
    · exact .inl (.inr ⟨g, hg, hv⟩)
    · exact .inr (.inl hv)

theorem local_setVariable (name : String) (v : Value) :
    (setVariable name v).Local State.roots {v} fun _ => ∅ := by
  refine Run.local_updateHost ?_
  rintro c u (hu | hu) -
  · obtain ⟨e, he, rfl⟩ := List.mem_map.1 hu
    rcases Properties.mem_entries_insert he with rfl | he
    · exact .inr rfl
    · exact .inl (.inl (List.mem_map_of_mem he))
  · exact .inl (.inr hu)

theorem readWithin_faultTexts (e : Fault) : Store.ReadWithin e.values (fun _ => ∅)
    fun s => (e.message? s, e.text? s, e.debugText? s) := by
  refine ⟨fun _ _ _ _ => Set.empty_subset _, fun s t P hP hvalues h => ?_⟩
  cases e with
  | thrown v =>
    have hv : v ∈ P := hvalues rfl
    simp only [Fault.message?, Fault.text?, Fault.debugText?, Store.text?_congr h hP hv,
      Store.quotedText?_congr h hP hv]
  | _ => rfl

/-- The object that tells a fault with the given texts. -/
def described (e : Fault) (message text debug : Value) : Properties :=
  .ofList <| [("kind", .string e.kind), ("message", message), ("text", text), ("debug", debug)] ++
    match e with
    | .thrown v => [("value", v)]
    | _ => []

theorem mem_values_of_mem_described {e : Fault} {message text debug : Value} {p : String × Value}
    (hp : p ∈ (described e message text debug).entries) (hcontainer : p.2.isContainer) :
    p.2 ∈ e.values ∪ {message} ∪ {text} ∪ {debug} := by
  rcases List.mem_append.1 (Properties.mem_entries_ofList hp) with hp | hp
  · simp only [List.mem_cons, List.not_mem_nil, or_false] at hp
    rcases hp with rfl | rfl | rfl | rfl
    · cases hcontainer
    · exact .inl (.inl (.inr rfl))
    · exact .inl (.inr rfl)
    · exact .inr rfl
  · cases e with
    | thrown v =>
      obtain rfl := List.mem_singleton.1 hp
      exact .inl (.inl (.inl rfl))
    | _ => cases hp

theorem local_describe (e : Fault) : (describe e).Local State.roots e.values ({·}) := by
  refine Run.local_store_bind (readWithin_faultTexts e) (f := fun (m, t, d) => do
    let message ← ofText m
    let text ← ofText t
    let debug ← ofText d
    Run.newObject (described e message text debug)) fun (m, t, d) => ?_
  refine (local_ofText m).bind fun message _ => (local_ofText t).bind fun text _ =>
    (local_ofText d).bind fun debug _ => Run.local_newObject fun p hp hcontainer => ?_
  exact (mem_values_of_mem_described hp hcontainer).imp_left (.imp_left (.imp_left .inl))

/-- The items of an array-like object are all that it holds but its length. -/
theorem mem_of_mem_arrayLike {vs : List Value} {e : String × Value}
    (he : e ∈ (Store.arrayLike vs).entries) (hcontainer : e.2.isContainer) : e.2 ∈ vs := by
  rcases List.mem_append.1 (Properties.mem_entries_ofList he) with he | he
  · obtain ⟨i, hi, rfl⟩ := List.mem_mapIdx.1 he
    exact List.getElem_mem hi
  · obtain rfl := List.mem_singleton.1 he
    cases hcontainer

section Eval

variable {h : Host State} {a : Activation}

mutual

theorem local_eval (hcalls : ∀ callee, h.CallsLocally State.roots callee) :
    ∀ (e : Expr) {known : Set Value}, e.constants ⊆ known → a.values ⊆ known →
    (e.eval h a).Local State.roots known ({·})
  | .constant v, known, hK, ha => Run.local_pure fun u hu _ => hK hu
  | .repeated text times, known, hK, ha => Run.local_pure (by simp [Value.isContainer])
  | .array items, known, hK, ha => by
    rw [Expr.eval]
    exact (local_evalList hcalls items hK ha).bind fun vs _ => Run.local_newArray (by grind)
  | .object properties, known, hK, ha => by
    rw [Expr.eval]
    exact (local_evalProperties hcalls properties hK ha).bind fun es _ => Run.local_newObject
      fun e he _ => .inr (List.mem_map_of_mem (Properties.mem_entries_ofList he))
  | .arrayLike items, known, hK, ha => by
    rw [Expr.eval]
    exact (local_evalList hcalls items hK ha).bind fun vs _ => Run.local_newObject
      fun e he hcontainer => .inr (mem_of_mem_arrayLike he hcontainer)
  | .range n, known, hK, ha => by
    rw [Expr.eval]
    refine Run.local_newArray ?_
    simp [Value.ofIndex]
  | .function kind tag body, known, hK, ha => by
    rw [Expr.eval]
    exact (local_newFunction ⟨kind, tag, body⟩).of_known fun u hu _ => hK hu
  | .argument i, known, hK, ha => by
    rw [Expr.eval]
    exact Run.local_pure fun u hu hcontainer =>
      ha (.inl (List.mem_of_getElem? (Value.mem_of_eq_getD hu hcontainer)))
  | .argumentCount, known, hK, ha => Run.local_pure (by simp [Value.ofIndex])
  | .binding, known, hK, ha => Run.local_pure fun u hu _ => ha (.inr hu)
  | .variable name, known, hK, ha => by
    rw [Expr.eval]
    exact Run.Local.bind Run.local_host fun b _ => Run.local_pure fun u hu hcontainer =>
      .inr (.inl (Properties.mem_values_of_get? (Value.mem_of_eq_getD hu hcontainer)))
  | .assign name e, known, hK, ha => by
    rw [Expr.eval]
    refine (local_eval hcalls e hK ha).bind fun v _ => ((local_setVariable name v).of_known ?_).bind
      fun _ _ => Run.local_pure ?_
    · grind
    · grind
  | .sequence es, known, hK, ha => by
    rw [Expr.eval]
    refine (local_evalList hcalls es hK ha).bind fun vs _ =>
      Run.local_pure fun u hu hcontainer => .inr ?_
    rw [List.getLastD_eq_getLast?] at hu
    exact List.mem_of_getLast? (Value.mem_of_eq_getD hu hcontainer)
  | .cond c t e, known, hK, ha => by
    rw [Expr.constants] at hK
    rw [Expr.eval]
    refine (local_eval hcalls c (by grind) ha).bind fun v _ => ?_
    split
    · exact local_eval hcalls t (by grind) (by grind)
    · exact local_eval hcalls e (by grind) (by grind)
  | .throw e, known, hK, ha => by
    rw [Expr.eval]
    exact (local_eval hcalls e hK ha).bind fun v _ => Run.local_throw fun u hu _ => .inr hu
  | .raise fault, known, hK, ha => by
    rw [Expr.eval]
    exact Run.local_throw fun u hu _ => hK hu
  | .attempt e handler, known, hK, ha => by
    rw [Expr.constants, Set.union_subset_iff] at hK
    rw [Expr.eval]
    refine (local_eval hcalls e hK.1 ha).tryCatch fun fault => ?_
    by_cases hendless : fault.isEndless
    · rw [if_pos hendless]
      exact Run.local_throw fun u hu _ => .inr hu
    rw [if_neg hendless]
    refine ((local_describe fault).of_known fun u hu _ => .inr hu).bind fun v _ =>
      ((local_setVariable "err" v).of_known fun u hu _ => .inr hu).bind fun _ _ =>
        local_eval hcalls handler ?_ ?_
    · grind
    · grind
  | .unary op e, known, hK, ha => by
    rw [Expr.eval]
    exact (local_eval hcalls e hK ha).bind fun v _ =>
      (local_unary op v).of_known fun u hu _ => .inr hu
  | .binary op e₁ e₂, known, hK, ha => by
    rw [Expr.constants, Set.union_subset_iff] at hK
    rw [Expr.eval]
    refine (local_eval hcalls e₁ hK.1 ha).bind fun v _ =>
      (local_eval hcalls e₂ (by grind) (by grind)).bind fun u _ => (local_binary op v u).of_known ?_
    grind
  | .put container key value, known, hK, ha => by
    rw [Expr.constants] at hK
    rw [Expr.eval]
    refine (local_eval hcalls container (by grind) ha).bind fun c _ =>
      (local_eval hcalls key (by grind) (by grind)).bind fun k _ =>
        (local_eval hcalls value (by grind) (by grind)).bind fun v _ =>
          (local_write c k v).of_known ?_
    grind
  | .concat es, known, hK, ha => by
    rw [Expr.eval]
    refine (local_evalList hcalls es hK ha).bind fun vs _ =>
      local_store_ofText fun s t P hP hknown h => ?_
    have htexts : vs.mapM (fun v => t.text? v) = vs.mapM fun v => s.text? v :=
      mapM_congr fun v hv => Store.text?_congr h hP (hknown (.inr hv)) _
    rw [htexts]
  | .call callee args, known, hK, ha => by
    rw [Expr.constants] at hK
    rw [Expr.eval]
    refine (local_eval hcalls callee (by grind) ha).bind fun f _ =>
      (local_evalList hcalls args (by grind) (by grind)).bind fun vs _ =>
        (hcalls f none vs).of_known ?_
    grind
  | .callBound callee bound args, known, hK, ha => by
    rw [Expr.constants] at hK
    rw [Expr.eval]
    refine (local_eval hcalls callee (by grind) ha).bind fun f _ =>
      (local_eval hcalls bound (by grind) (by grind)).bind fun b _ =>
        (local_evalList hcalls args (by grind) (by grind)).bind fun vs _ =>
          (hcalls f (some b) vs).of_known ?_
    grind
  | .invoke context callback args, known, hK, ha => by
    rw [Expr.constants] at hK
    rw [Expr.eval]
    refine (local_eval hcalls context (by grind) ha).bind fun c _ =>
      (local_eval hcalls callback (by grind) (by grind)).bind fun f _ =>
        (local_evalList hcalls args (by grind) (by grind)).bind fun vs _ =>
          (hcalls f _ vs).of_known ?_
    have hbinding := fun v => Invoker.eq_of_mem_binding?_resolve (c := c) (v := v)
    grind
  | .loop target receiver callback second, known, hK, ha => by
    rw [Expr.constants] at hK
    rw [Expr.eval]
    refine (local_eval hcalls receiver (by grind) ha).bind fun r _ =>
      (local_eval hcalls callback (by grind) (by grind)).bind fun f _ =>
        (local_evalOption hcalls second (by grind) (by grind)).bind fun o _ =>
          (local_target target (hcalls f) r o).of_known ?_
    grind

theorem local_evalList (hcalls : ∀ callee, h.CallsLocally State.roots callee) :
    ∀ (es : List Expr) {known : Set Value}, listConstants es ⊆ known →
    a.values ⊆ known → (evalList h a es).Local State.roots known fun vs => {v | v ∈ vs}
  | [], known, hK, ha => Run.local_pure (by simp)
  | e :: es, known, hK, ha => by
    rw [listConstants, Set.union_subset_iff] at hK
    rw [evalList]
    refine (local_eval hcalls e hK.1 ha).bind fun v _ =>
      (local_evalList hcalls es (by grind) (by grind)).bind fun vs _ => Run.local_pure ?_
    grind

theorem local_evalProperties (hcalls : ∀ callee, h.CallsLocally State.roots callee) :
    ∀ (es : List (String × Expr)) {known : Set Value},
    propertyConstants es ⊆ known → a.values ⊆ known →
    (evalProperties h a es).Local State.roots known fun es => {v | v ∈ es.map Prod.snd}
  | [], known, hK, ha => Run.local_pure (by simp)
  | (k, e) :: es, known, hK, ha => by
    rw [propertyConstants, Set.union_subset_iff] at hK
    rw [evalProperties]
    refine (local_eval hcalls e hK.1 ha).bind fun v _ =>
      (local_evalProperties hcalls es (by grind) (by grind)).bind fun es _ => Run.local_pure ?_
    grind

theorem local_evalOption (hcalls : ∀ callee, h.CallsLocally State.roots callee) :
    ∀ (e : Option Expr) {known : Set Value}, optionConstants e ⊆ known →
    a.values ⊆ known → (evalOption h a e).Local State.roots known fun o => {v | v ∈ o}
  | none, known, hK, ha => Run.local_pure (by simp)
  | some e, known, hK, ha => by
    rw [evalOption]
    refine (local_eval hcalls e hK ha).bind fun v _ => Run.local_pure ?_
    grind

end

end Eval

/-- A function of a script, on arguments and a binding, acts only on what these and the script give
access to, if the calls in its body do. -/
theorem local_perform {h : Host State} (hcalls : ∀ callee, h.CallsLocally State.roots callee)
    (index : Nat) (binding : Option Value) (args : List Value) :
    (perform h index binding args).Local State.roots ({v | v ∈ binding} ∪ {v | v ∈ args}) ({·}) := by
  rw [perform]
  refine Run.Local.bind Run.local_host fun b _ => ?_
  cases hf : b.functions[index]? with
  | none => exact Run.local_pure (by simp [Value.isContainer])
  | some f =>
    let a : Activation := ⟨args, binding.getD .undefined⟩
    have hconstants : f.body.constants ⊆ State.roots b :=
      fun v hv => .inr ⟨f, Array.mem_of_getElem? hf, hv⟩
    have hvalues : ∀ v ∈ a.values, v.isContainer → v ∈ binding ∨ v ∈ args := by
      rintro v (hv | rfl) hcontainer
      · exact .inr hv
      · exact .inl (Value.mem_of_eq_getD rfl hcontainer)
    have hbody {known : Set Value}
        (hknown : {v | v ∈ binding} ∪ {v | v ∈ args} ∪ State.roots b ⊆ known) :
        (f.body.eval h a).Local State.roots known ({·}) := by
      refine (local_eval hcalls f.body Set.subset_union_left Set.subset_union_right).of_known ?_
      rintro v (hv | hv) hcontainer
      · exact hknown (.inr (hconstants hv))
      · exact hknown (.inl (hvalues v hv hcontainer))
    cases htag : f.tag with
    | none =>
      simp only [htag]
      exact hbody subset_rfl
    | some tag =>
      simp only [htag]
      refine Run.Local.bind (Run.local_updateHost fun _ v hv _ => .inl hv) fun _ _ => hbody ?_
      exact Set.subset_union_left

/-- The functions of a script act only on what can be reached, however deep they call each other. -/
theorem callsLocally_host (depth : Nat) (callee : Value) :
    (host depth).CallsLocally State.roots callee := by
  induction depth generalizing callee with
  | zero =>
    have hthrow {known : Set Value} : (throw tooDeep : Run State Value).Local State.roots known ({·}) :=
      Run.local_throw fun v hv _ => hv.elim
    exact Host.callsLocally (fun _ _ => hthrow) (fun _ _ _ => hthrow) callee
  | succ depth ih =>
    refine Host.callsLocally (fun i args => ?_) (fun i b args => ?_) callee
    · exact (local_perform ih i none args).of_known (by grind)
    · exact (local_perform ih i (some b) args).of_known (by grind)

end CollectionLoops.Script
