import CollectionLoops.Proofs.Reachability
import CollectionLoops.Proofs.Recording

/-!
Computations that act only on the containers that can be reached from what they know, and on those that
they make. Such a computation leaves all other containers as they are, brings nothing from there within
reach, and does the same whatever they hold. Main statement: sequences of such computations, with the
faults that are caught between them, are such computations.
-/
namespace CollectionLoops

variable {σ : Type} {α β : Type}

/-- The values that a fault carries. -/
def Fault.values : Fault → Set Value
  | .thrown v => {v}
  | _ => ∅

namespace World

def withStore (w : World σ) (s : Store) : World σ := { w with store := s }

/-- Whether a world may have become another one through what a set of values gives access to. `roots`
are the values that the state of the host holds, and `gained` are those that are handed out. -/
structure Evolves (roots : σ → Set Value) (w : World σ) (P gained : Set Value) (w' : World σ) :
    Prop where
  store : w.store.Evolves P w'.store
  roots : roots w'.host ⊆ w.store.grown P w'.store
  gained : gained ⊆ w.store.grown P w'.store

end World

namespace Run

/-- The values of an outcome, if `gives` are those of a result. -/
def outcomeValues (gives : α → Set Value) : Except Fault α → Set Value
  | .ok a => gives a
  | .error e => e.values

/-- Whether a computation acts only on what a set of values gives access to: what it does to the world
goes through these values, and it is the same for every store that cannot be told apart through them. -/
def LocalAt (roots : σ → Set Value) (gives : α → Set Value) (x : Run σ α) (w : World σ)
    (P : Set Value) : Prop :=
  ∃ o w', x.runOn w = (o, w') ∧ w.Evolves roots P (outcomeValues gives o) w' ∧
    ∀ t, w.store.SameOn P t → ∃ t', x.runOn (w.withStore t) = (o, w'.withStore t') ∧
      w'.store.SameOn (w.store.grown P w'.store) t'

/-- Whether a computation acts only on the containers that can be reached from known values and from
the state of the host, in every world where these are in the store. -/
def Local (roots : σ → Set Value) (known : Set Value) (gives : α → Set Value) (x : Run σ α) :
    Prop :=
  ∀ w : World σ, let reach := w.store.reachable (known ∪ roots w.host)
    (∀ v ∈ reach, w.store.Contains v) → x.LocalAt roots gives w reach

variable {roots : σ → Set Value} {known known' : Set Value} {gives gives' : α → Set Value}
  {x : Run σ α} {w : World σ} {P : Set Value}

theorem local_of_localAt (h : ∀ (w : World σ) P, w.store.Closed P → known ⊆ P →
    roots w.host ⊆ P → x.LocalAt roots gives w P) : x.Local roots known gives := by
  intro w reach hreach
  have hsubset := w.store.subset_reachable (known ∪ roots w.host)
  exact h w reach (Store.closed_reachable hreach) (Set.union_subset_iff.1 hsubset).1
    (Set.union_subset_iff.1 hsubset).2

/-- What acts only on the reachable containers acts only on those of any closed set that has the known
values. -/
theorem Local.localAt (hx : x.Local roots known gives) (hP : w.store.Closed P)
    (hknown : known ⊆ P) (hroots : roots w.host ⊆ P) : x.LocalAt roots gives w P := by
  have hreach := hP.reachable_subset (Set.union_subset hknown hroots)
  have hcontains := fun v hv => hP.contains v (hreach hv)
  have hclosed := Store.closed_reachable hcontains
  obtain ⟨o, w', hrun, hevolves, hsame⟩ := hx w hcontains
  have hgrown : w.store.grown _ w'.store ⊆ w.store.grown P w'.store :=
    fun v hv => hv.imp (hreach ·) id
  refine ⟨o, w', hrun, ⟨hevolves.store.mono hreach hP, hevolves.roots.trans hgrown,
    hevolves.gained.trans hgrown⟩, fun t ht => ?_⟩
  obtain ⟨t', hrun', ht'⟩ := hsame t (ht.mono hreach)
  refine ⟨t', hrun', ht'.contains, fun v hv => ?_⟩
  by_cases hv' : v ∈ w.store.grown (w.store.reachable (known ∪ roots w.host)) w'.store
  · exact ht'.agree v hv'
  -- what is only in the larger set is as it was, in both runs
  · have hvP : v ∈ P := hv.resolve_right fun hnew => hv' (.inr hnew)
    have hout : v ∉ w.store.reachable (known ∪ roots w.host) := fun h => hv' (.inl h)
    have hstays := hevolves.store.keeps v (hP.contains v hvP) hout
    have hsub : t.reachable (known ∪ roots w.host) ⊆ w.store.reachable (known ∪ roots w.host) :=
      ((ht.mono hreach).closed hclosed).reachable_subset (w.store.subset_reachable _)
    obtain ⟨o', w'', hrun'', hevolves', -⟩ := hx (w.withStore t) fun u hu =>
      (ht.contains u).1 (hcontains u (hsub hu))
    obtain ⟨rfl, rfl⟩ := Prod.mk.inj (hrun'.symm.trans hrun'')
    have hstays' := hevolves'.store.keeps v ((ht.contains v).1 (hP.contains v hvP))
      fun h => hout (hsub h)
    exact hstays.symm.trans ((ht.agree v hvP).trans hstays')

theorem Local.mono (hx : x.Local roots known gives)
    (hknown : ∀ v ∈ known, v.isContainer → v ∈ known')
    (hgives : ∀ a, ∀ v ∈ gives' a, v.isContainer → v ∈ gives a ∨ v ∈ known') :
    x.Local roots known' gives' := by
  refine local_of_localAt fun w P hP hsubset hroots => ?_
  obtain ⟨o, w', hrun, hevolves, hsame⟩ :=
    hx.localAt hP (fun v hv => hP.mem fun hc => hsubset (hknown v hv hc)) hroots
  refine ⟨o, w', hrun, ⟨hevolves.store, hevolves.roots, ?_⟩, hsame⟩
  cases o with
  | ok a =>
    refine fun v hv => hevolves.store.closed.mem fun hc => ?_
    rcases hgives a v hv hc with hv | hv
    · exact hevolves.gained hv
    · exact .inl (hsubset hv)
  | error e => exact hevolves.gained

theorem Local.of_known (hx : x.Local roots known gives)
    (hknown : ∀ v ∈ known, v.isContainer → v ∈ known') : x.Local roots known' gives :=
  hx.mono hknown fun _ _ hv _ => .inl hv

section Steps

/-- What leaves the store as it is may hand out whatever is known. -/
theorem localAt_of_runOn_eq (o : Except Fault α) (w' : World σ)
    (hrun : ∀ t, x.runOn (w.withStore t) = (o, w'.withStore t)) (hP : w.store.Closed P)
    (hroots : roots w'.host ⊆ P) (hgained : ∀ v ∈ outcomeValues gives o, v.isContainer → v ∈ P) :
    x.LocalAt roots gives w P := by
  have hgrown : w.store.grown P w.store = P := w.store.grown_self P
  refine ⟨o, w'.withStore w.store, hrun w.store, ⟨.refl hP, ?_, ?_⟩, fun t ht => ⟨t, hrun t, ?_⟩⟩
  · exact hroots.trans hgrown.ge
  · exact fun v hv => hgrown.ge (hP.mem (hgained v hv))
  · exact ht.mono hgrown.le

theorem local_pure {a : α} (h : ∀ v ∈ gives a, v.isContainer → v ∈ known) :
    (pure a : Run σ α).Local roots known gives :=
  local_of_localAt fun w _ hP hknown hroots => localAt_of_runOn_eq (.ok a) w (fun _ => rfl) hP hroots
    fun v hv hcontainer => hknown (h v hv hcontainer)

theorem local_throw {e : Fault} (h : ∀ v ∈ e.values, v.isContainer → v ∈ known) :
    (throw e : Run σ α).Local roots known gives :=
  local_of_localAt fun w _ hP hknown hroots => localAt_of_runOn_eq (.error e) w (fun _ => rfl) hP hroots
    fun v hv hcontainer => hknown (h v hv hcontainer)

/-- The state of the host gives the values that it holds. -/
theorem local_host : (host : Run σ σ).Local roots known roots :=
  local_of_localAt fun w _ hP _ hroots => localAt_of_runOn_eq (.ok w.host) w (fun _ => rfl)
    hP hroots fun _ hv _ => hroots hv

theorem local_updateHost {f : σ → σ}
    (hf : ∀ a, ∀ v ∈ roots (f a), v.isContainer → v ∈ roots a ∨ v ∈ known) :
    (updateHost f).Local roots known fun _ => ∅ :=
  local_of_localAt fun w _ hP hknown hroots => localAt_of_runOn_eq (.ok ())
    { w with host := f w.host } (fun _ => rfl) hP
    (fun v hv => hP.mem fun hc => (hf w.host v hv hc).elim (hroots ·) (hknown ·)) nofun

theorem local_record (r : LogRecord) : (record r : Run σ Unit).Local roots known fun _ => ∅ :=
  local_of_localAt fun w _ hP _ hroots => localAt_of_runOn_eq (.ok ())
    { w with log := w.log.push r } (fun _ => rfl) hP hroots nofun

theorem local_updateStore_id : (updateStore id : Run σ Unit).Local roots known fun _ => ∅ :=
  local_of_localAt fun w _ hP _ hroots => localAt_of_runOn_eq (.ok ()) w (fun _ => rfl) hP
    hroots nofun

end Steps

section Sequences

variable {mid : α → Set Value} {gives : β → Set Value} {x : Run σ α} {y z : Run σ β}
  {f : α → Run σ β}

/-- What goes on from where a first computation ended, with what that one made within reach. -/
theorem LocalAt.of_then {w w' : World σ} {gained : Set Value}
    (hevolves : w.Evolves roots P gained w')
    (hz : z.LocalAt roots gives w' (w.store.grown P w'.store)) (hrun : y.runOn w = z.runOn w')
    (hsame : ∀ t, w.store.SameOn P t → ∃ t', y.runOn (w.withStore t) = z.runOn (w'.withStore t') ∧
      w'.store.SameOn (w.store.grown P w'.store) t') : y.LocalAt roots gives w P := by
  obtain ⟨o, w'', hrun', hevolves', hsame'⟩ := hz
  have hgrown := Store.grown_grown (P := P) hevolves.store.contains hevolves'.store.contains
  refine ⟨o, w'', hrun.trans hrun', ⟨hevolves.store.trans hevolves'.store,
    hevolves'.roots.trans hgrown.le, hevolves'.gained.trans hgrown.le⟩, fun t ht => ?_⟩
  obtain ⟨t', hrun, ht'⟩ := hsame t ht
  obtain ⟨t'', hrun', ht''⟩ := hsame' t' ht'
  exact ⟨t'', hrun.trans hrun', ht''.mono hgrown.ge⟩

/-- The second of two computations also knows what the first one gave. -/
theorem Local.bind (hx : x.Local roots known mid)
    (hf : ∀ a, (∃ w w', x.runOn w = (.ok a, w')) → (f a).Local roots (known ∪ mid a) gives) :
    (x >>= f).Local roots known gives := by
  refine local_of_localAt fun w P hP hknown hroots => ?_
  obtain ⟨o, w', hrun, hevolves, hsame⟩ := hx.localAt hP hknown hroots
  cases o with
  | error e =>
    refine ⟨.error e, w', by rw [runOn_bind, hrun], hevolves, fun t ht => ?_⟩
    obtain ⟨t', hrun', ht'⟩ := hsame t ht
    exact ⟨t', by rw [runOn_bind, hrun'], ht'⟩
  | ok a =>
    have hknown' := Set.union_subset (hknown.trans (w.store.subset_grown P w'.store)) hevolves.gained
    refine .of_then hevolves ((hf a ⟨w, w', hrun⟩).localAt hevolves.store.closed hknown'
      hevolves.roots) (by rw [runOn_bind, hrun]) fun t ht => ?_
    obtain ⟨t', hrun', ht'⟩ := hsame t ht
    exact ⟨t', by rw [runOn_bind, hrun'], ht'⟩

/-- What a sequence ends with, its second part ends with. -/
theorem exists_of_runOn_bind {w w' : World σ} {b : β} (hrun : (x >>= f).runOn w = (.ok b, w')) :
    ∃ a w₁, (f a).runOn w₁ = (.ok b, w') := by
  rw [runOn_bind] at hrun
  rcases hx : x.runOn w with ⟨e | a, w₁⟩
  · rw [hx] at hrun
    cases hrun
  · rw [hx] at hrun
    exact ⟨a, w₁, hrun⟩

theorem runOn_tryCatch (x : Run σ β) (f : Fault → Run σ β) (w : World σ) :
    (tryCatch x f).runOn w =
      match x.runOn w with
      | (.ok b, w) => (.ok b, w)
      | (.error e, w) => (f e).runOn w := by
  change (ExceptT.run (ExceptT.tryCatch x f)).run w = _
  rw [ExceptT.run, ExceptT.tryCatch, ExceptT.mk]
  change (bind (m := StateM (World σ)) x.run _).run w = _
  rw [StateT.run_bind, runOn]
  rcases x.run.run w with ⟨e | b, w'⟩ <;> rfl

/-- What is done about a fault also knows the value that was thrown. -/
theorem Local.tryCatch {f : Fault → Run σ β} (hy : y.Local roots known gives)
    (hf : ∀ e, (f e).Local roots (known ∪ e.values) gives) :
    (tryCatch y f : Run σ β).Local roots known gives := by
  refine local_of_localAt fun w P hP hknown hroots => ?_
  obtain ⟨o, w', hrun, hevolves, hsame⟩ := hy.localAt hP hknown hroots
  cases o with
  | error e =>
    have hknown' := Set.union_subset (hknown.trans (w.store.subset_grown P w'.store)) hevolves.gained
    refine .of_then hevolves ((hf e).localAt hevolves.store.closed hknown' hevolves.roots)
      (by rw [runOn_tryCatch, hrun]) fun t ht => ?_
    obtain ⟨t', hrun', ht'⟩ := hsame t ht
    exact ⟨t', by rw [runOn_tryCatch, hrun'], ht'⟩
  | ok b =>
    refine ⟨.ok b, w', by rw [runOn_tryCatch, hrun], hevolves, fun t ht => ?_⟩
    obtain ⟨t', hrun', ht'⟩ := hsame t ht
    exact ⟨t', by rw [runOn_tryCatch, hrun'], ht'⟩

end Sequences

end Run

/-- Whether what is read of a store gives only what known values give access to, and is the same for
every store that cannot be told apart through them. -/
structure Store.ReadWithin (known : Set Value) (gives : α → Set Value) (read : Store → α) :
    Prop where
  values : ∀ s P, s.Closed P → known ⊆ P → gives (read s) ⊆ P
  same : ∀ s t P, s.Closed P → known ⊆ P → s.SameOn P t → read t = read s

namespace Store

theorem ReadWithin.mono {known known' : Set Value} {gives : α → Set Value} {read : Store → α}
    (h : ReadWithin known gives read) (hknown : known ⊆ known') : ReadWithin known' gives read where
  values s P hP hsubset := h.values s P hP (hknown.trans hsubset)
  same s t P hP hsubset := h.same s t P hP (hknown.trans hsubset)

variable {known : Set Value} {v : Value}

theorem readWithin_element (hv : v ∈ known) (i : UInt64) :
    ReadWithin known ({·}) (·.element v i) where
  values _ _ hP hknown := Set.singleton_subset_iff.2 (hP.element_mem (hknown hv) i)
  same _ _ _ _ hknown h := ((h.agree v (hknown hv)).element_eq i).symm

theorem readWithin_length (hv : v ∈ known) : ReadWithin known (fun _ => ∅) (·.length v) where
  values _ _ _ _ := Set.empty_subset _
  same _ _ _ _ hknown h := (h.agree v (hknown hv)).length_eq.symm

theorem Closed.read_mem {s : Store} {P : Set Value} (hP : s.Closed P) (hv : v ∈ P) {key : String}
    {u : Value} (hread : s.read v key = .ok u) : u ∈ P := by
  cases v with
  | undefined | null => cases hread
  | array r =>
    simp only [read] at hread
    split at hread
    · cases hread
      exact hP.plain _ rfl
    · cases hread
      cases hitem : (IndexKey.index? key).bind fun i => (s.items r)[i.toNat]? with
      | none => exact hP.plain _ rfl
      | some u =>
        obtain ⟨i, -, hi⟩ := Option.bind_eq_some_iff.1 hitem
        exact hP.inside _ hv u (Array.mem_toList_iff.2 (Array.mem_of_getElem? hi))
  | object r =>
    cases hread
    cases hproperty : (s.properties r).get? key with
    | none => exact hP.plain _ rfl
    | some u => exact hP.inside _ hv u (mem_children_of_get? hproperty)
  | _ =>
    cases hread
    exact hP.plain _ rfl

theorem Agree.read_eq {s t : Store} (h : s.Agree t v) (key : String) : s.read v key = t.read v key := by
  cases v with
  | undefined | null => rfl
  | array r =>
    have hitems : s.items r = t.items r := h
    simp only [read, length, hitems]
  | object r =>
    have hproperties : s.properties r = t.properties r := h
    simp only [read, hproperties]
  | _ => rfl

theorem readWithin_read (hv : v ∈ known) (key : String) :
    ReadWithin known (Run.outcomeValues ({·})) (·.read v key) where
  values s P hP hknown := by
    cases hread : s.read v key with
    | ok u => exact Set.singleton_subset_iff.2 (hP.read_mem (hknown hv) hread)
    | error e =>
      obtain ⟨-, rfl⟩ := isNullish_of_read_eq_error hread
      exact Set.empty_subset _
  same _ _ _ _ hknown h := ((h.agree v (hknown hv)).read_eq key).symm

end Store

namespace Run

section Access

variable {roots : σ → Set Value} {known : Set Value} {K : α → Set Value} {gives : β → Set Value}

theorem local_store_pure {g : Store → α} (hread : Store.ReadWithin known K g) :
    (store >>= fun s => pure (g s) : Run σ α).Local roots known K := by
  refine local_of_localAt fun w P hP hknown hroots => ?_
  have hgrown : w.store.grown P w.store = P := w.store.grown_self P
  refine ⟨.ok (g w.store), w, rfl, ⟨.refl hP, hroots.trans hgrown.ge, ?_⟩, fun t ht => ⟨t, ?_, ?_⟩⟩
  · exact (hread.values w.store P hP hknown).trans hgrown.ge
  · rw [← hread.same w.store t P hP hknown ht]
    rfl
  · exact ht.mono hgrown.le

/-- A look into the store, and what goes on with what was found there. -/
theorem local_store_bind {g : Store → α} {f : α → Run σ β} (hread : Store.ReadWithin known K g)
    (hf : ∀ a, (f a).Local roots (known ∪ K a) gives) :
    (store >>= fun s => f (g s)).Local roots known gives :=
  (local_store_pure hread).bind fun a _ => hf a

/-- An edit of one container within reach, or a new container. -/
theorem local_of_edited {x : Run σ β} {c : Store → Value} {e : Store → Store} {a : Store → β}
    (hrun : ∀ w, x.runOn w = (.ok (a w.store), w.withStore (e w.store)))
    (hedit : ∀ s P, s.Closed P → known ⊆ P → s.Edited (c s) (e s) ∧ (s.Contains (c s) → c s ∈ P) ∧
      (∀ v ∈ (e s).children (c s), v ∈ P) ∧ gives (a s) ⊆ s.grown P (e s))
    (hsame : ∀ s t P, s.Closed P → known ⊆ P → s.SameOn P t →
      c t = c s ∧ a t = a s ∧ (e s).Agree (e t) (c s)) : x.Local roots known gives := by
  refine local_of_localAt fun w P hP hknown hroots => ?_
  obtain ⟨hedited, hc, hinside, hgives⟩ := hedit w.store P hP hknown
  refine ⟨.ok (a w.store), w.withStore (e w.store), hrun w,
    ⟨hedited.evolves hP hc hinside, hroots.trans (w.store.subset_grown P _), hgives⟩,
    fun t ht => ⟨e t, ?_, ?_⟩⟩
  · obtain ⟨-, ha, -⟩ := hsame w.store t P hP hknown ht
    rw [hrun, ← ha]
    rfl
  · obtain ⟨hct, -, hagree⟩ := hsame w.store t P hP hknown ht
    have hedited' := (hedit t P (ht.closed hP) hknown).1
    rw [hct] at hedited'
    exact hedited.sameOn hedited' hP ht hagree

theorem local_newArray {vs : Array Value} (hvs : ∀ v ∈ vs, v.isContainer → v ∈ known) :
    (newArray vs : Run σ Value).Local roots known ({·}) := by
  refine local_of_edited (c := fun s => .array ⟨s.arrays.size⟩) (e := fun s => (s.newArray vs).2)
    (a := fun s => .array ⟨s.arrays.size⟩) (fun w => rfl) (fun s P hP hknown => ?_)
    fun s t P hP hknown ht => ?_
  · have hnew : ¬ s.Contains (.array ⟨s.arrays.size⟩) := Nat.lt_irrefl _
    have hedited := s.edited_newArray vs
    refine ⟨hedited, fun h => absurd h hnew, fun v hv => ?_,
      Set.singleton_subset_iff.2 (.inr ⟨hnew, (hedited.contains _).2 (.inr rfl)⟩)⟩
    have hitems : (s.newArray vs).2.items ⟨s.arrays.size⟩ = vs :=
      (s.items_newArray vs _).trans (if_pos rfl)
    rw [Store.children, hitems, Array.mem_toList_iff] at hv
    exact hP.mem fun hcontainer => hknown (hvs v hv hcontainer)
  · rw [← ht.arrays_size_eq]
    refine ⟨rfl, rfl, ?_⟩
    have hitems (s : Store) (r : ArrayRef) (hr : r.index = s.arrays.size) :
        (s.newArray vs).2.items r = vs := (s.items_newArray vs _).trans (if_pos hr)
    exact (hitems s _ rfl).trans (hitems t _ ht.arrays_size_eq).symm

theorem local_newObject {p : Properties} (hp : ∀ e ∈ p.entries, e.2.isContainer → e.2 ∈ known) :
    (newObject p : Run σ Value).Local roots known ({·}) := by
  refine local_of_edited (c := fun s => .object ⟨s.objects.size⟩) (e := fun s => (s.newObject p).2)
    (a := fun s => .object ⟨s.objects.size⟩) (fun w => rfl) (fun s P hP hknown => ?_)
    fun s t P hP hknown ht => ?_
  · have hnew : ¬ s.Contains (.object ⟨s.objects.size⟩) := Nat.lt_irrefl _
    have hedited := s.edited_newObject p
    refine ⟨hedited, fun h => absurd h hnew, fun v hv => ?_,
      Set.singleton_subset_iff.2 (.inr ⟨hnew, (hedited.contains _).2 (.inr rfl)⟩)⟩
    have hproperties : (s.newObject p).2.properties ⟨s.objects.size⟩ = p :=
      (s.properties_newObject p _).trans (if_pos rfl)
    rw [Store.children, hproperties, List.mem_map] at hv
    obtain ⟨e, he, rfl⟩ := hv
    exact hP.mem fun hcontainer => hknown (hp e he hcontainer)
  · rw [← ht.objects_size_eq]
    refine ⟨rfl, rfl, ?_⟩
    have hproperties (s : Store) (r : ObjectRef) (hr : r.index = s.objects.size) :
        (s.newObject p).2.properties r = p := (s.properties_newObject p _).trans (if_pos hr)
    exact (hproperties s _ rfl).trans (hproperties t _ ht.objects_size_eq).symm

theorem local_updateArray {r : ArrayRef} {f : Array Value → Array Value} (hr : .array r ∈ known)
    (hf : ∀ vs, ∀ v ∈ f vs, v ∈ vs ∨ (v.isContainer → v ∈ known)) :
    (updateStore (·.updateArray r f) : Run σ Unit).Local roots known fun _ => ∅ := by
  refine local_of_edited (c := fun _ => .array r) (e := (·.updateArray r f)) (a := fun _ => ())
    (fun w => rfl) (fun s P hP hknown => ?_) fun s t P hP hknown ht => ⟨rfl, rfl, ?_⟩
  · have hcontains := hP.contains _ (hknown hr)
    refine ⟨Store.edited_updateArray f hcontains, fun _ => hknown hr, fun v hv => ?_,
      Set.empty_subset _⟩
    · rw [Store.children, Store.items_updateArray_self s f hcontains, Array.mem_toList_iff] at hv
      rcases hf _ v hv with hv | hv
      · exact hP.inside _ (hknown hr) v (Array.mem_toList_iff.2 hv)
      · exact hP.mem fun hcontainer => hknown (hv hcontainer)
  · have hcontains := hP.contains _ (hknown hr)
    have hsame : s.items r = t.items r := ht.agree _ (hknown hr)
    change (s.updateArray r f).items r = (t.updateArray r f).items r
    rw [s.items_updateArray_self f hcontains, t.items_updateArray_self f ((ht.contains _).1 hcontains),
      hsame]

theorem local_updateObject {r : ObjectRef} {f : Properties → Properties} (hr : .object r ∈ known)
    (hf : ∀ p, ∀ e ∈ (f p).entries, e ∈ p.entries ∨ (e.2.isContainer → e.2 ∈ known)) :
    (updateStore (·.updateObject r f) : Run σ Unit).Local roots known fun _ => ∅ := by
  refine local_of_edited (c := fun _ => .object r) (e := (·.updateObject r f)) (a := fun _ => ())
    (fun w => rfl) (fun s P hP hknown => ?_) fun s t P hP hknown ht => ⟨rfl, rfl, ?_⟩
  · have hcontains := hP.contains _ (hknown hr)
    refine ⟨Store.edited_updateObject f hcontains, fun _ => hknown hr, fun v hv => ?_,
      Set.empty_subset _⟩
    · rw [Store.children, Store.properties_updateObject_self s f hcontains, List.mem_map] at hv
      obtain ⟨e, he, rfl⟩ := hv
      rcases hf _ e he with he | he
      · exact hP.inside _ (hknown hr) _ (List.mem_map_of_mem he)
      · exact hP.mem fun hcontainer => hknown (he hcontainer)
  · have hcontains := hP.contains _ (hknown hr)
    have hsame : s.properties r = t.properties r := ht.agree _ (hknown hr)
    change (s.updateObject r f).properties r = (t.updateObject r f).properties r
    rw [s.properties_updateObject_self f hcontains,
      t.properties_updateObject_self f ((ht.contains _).1 hcontains), hsame]

theorem local_read {v : Value} (hv : v ∈ known) (key : String) :
    (read v key : Run σ Value).Local roots known ({·}) := by
  have hread : (read v key : Run σ Value) =
      store >>= fun s => MonadExcept.ofExcept (s.read v key) := by
    refine funext fun w => (runOn_read v key w).trans ?_
    change _ = (MonadExcept.ofExcept (w.store.read v key) : Run σ Value).runOn w
    cases w.store.read v key <;> rfl
  rw [hread]
  refine local_store_bind (Store.readWithin_read hv key) fun o => ?_
  cases o with
  | ok u => exact local_pure fun _ hu _ => .inr hu
  | error e => exact local_throw fun _ hu _ => .inr hu

end Access

end Run

end CollectionLoops
