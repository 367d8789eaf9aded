import JsonTyping.Proofs.Runs
import JsonTyping.Schema.Conversion

/-!
# Depth of a conversion

A conversion that does not get too deep does the same when it may go deeper (`agrees_toType`). Only
the converter that the parts of a schema are converted with looks at the depth, so every part is
shown to agree when the converters agree.
-/

namespace JsonTyping.Conversion

variable {α β : Type}

/-- The second step does what the first one does, unless that gets too deep. -/
def Agrees (m m' : ConvertM α) : Prop :=
  ∀ s, (outcome m s).1 ≠ .error .tooDeep → outcome m' s = outcome m s

theorem Agrees.refl (m : ConvertM α) : Agrees m m := fun _ _ => rfl

theorem Agrees.bind {m m' : ConvertM α} {f f' : α → ConvertM β} (h : Agrees m m')
    (hf : ∀ a, Agrees (f a) (f' a)) : Agrees (m >>= f) (m' >>= f') := by
  intro s hs
  rw [outcome_bind] at hs ⊢
  rw [outcome_bind]
  have hm : (outcome m s).1 ≠ .error .tooDeep := by
    intro hdeep
    cases hrun : outcome m s with
    | mk result s' =>
      rw [hrun] at hs hdeep
      obtain rfl : result = .error .tooDeep := hdeep
      exact hs rfl
  rw [h s hm]
  cases hrun : outcome m s with
  | mk result s' =>
    rw [hrun] at hs
    cases result with
    | ok a => exact hf a s' hs
    | error e => rfl

theorem Agrees.map {m m' : ConvertM α} (h : Agrees m m') (f : α → β) :
    Agrees (f <$> m) (f <$> m') := by
  rw [← bind_pure_comp, ← bind_pure_comp]
  exact h.bind fun a => .refl _

theorem Agrees.mapM {f f' : α → ConvertM β} (h : ∀ a, Agrees (f a) (f' a)) (l : List α) :
    Agrees (l.mapM f) (l.mapM f') := by
  induction l with
  | nil =>
    rw [List.mapM_nil, List.mapM_nil]
    exact .refl _
  | cons a l ih =>
    rw [List.mapM_cons, List.mapM_cons]
    exact (h a).bind fun b => ih.bind fun bs => .refl _

/-- The second converter does what the first one does, unless that gets too deep. -/
def Deepens (convert convert' : Converter) : Prop :=
  ∀ v place a, Agrees (convert v place a) (convert' v place a)

variable {convert convert' : Converter}

theorem Deepens.convertCases (h : Deepens convert convert') (place : Place) (a : Attributes)
    (cases : List Json) :
    Agrees (convertCases convert place a cases) (convertCases convert' place a cases) := by
  unfold Conversion.convertCases
  refine .mapM (fun e => ?_) cases.zipIdx
  obtain ⟨v, i⟩ := e
  exact h v _ a

theorem Deepens.arrayType (h : Deepens convert convert') (x : Subject) (a : Attributes) :
    Agrees (arrayType convert x a) (arrayType convert' x a) := by
  have hitems : Agrees (itemsType convert x a) (itemsType convert' x a) := by
    unfold itemsType
    dsimp only
    split
    · exact .refl _
    · exact (h.convertCases _ a _).bind fun types => .refl _
    · exact h _ _ a
    · exact h _ _ a
    · exact .refl _
  exact hitems.bind fun items => .refl _

theorem Deepens.objectType (h : Deepens convert convert') (x : Subject) (a : Attributes) :
    Agrees (objectType convert x a) (objectType convert' x a) := by
  have hdeclared : ∀ required schemas, Agrees (declaredProperties convert x required schemas)
      (declaredProperties convert' x required schemas) := by
    intro required schemas
    exact .mapM (fun e => (h e.2 _ _).bind fun t => .refl _) schemas
  have hadditional : Agrees (additionalType convert x a) (additionalType convert' x a) := by
    unfold additionalType
    split
    · exact .refl _
    · exact .refl _
    · exact .refl _
    · exact (h _ _ a).map some
  unfold Conversion.objectType
  refine (Agrees.refl _).bind fun listed => (Agrees.refl _).bind fun schemas => ?_
  dsimp only
  refine (hdeclared _ schemas).bind fun declared => hadditional.bind fun additional => ?_
  exact .refl _

theorem Agrees.containerTypes {m m' : ConvertM NodeId} (h : Agrees m m') (x : Subject)
    (t : JsonType) : Agrees (containerTypes x t m) (containerTypes x t m') := by
  unfold Conversion.containerTypes
  split
  · exact h.map _
  · exact .refl _

theorem Deepens.ownTypes (h : Deepens convert convert') (x : Subject)
    (names inferred : Attributes) :
    Agrees (ownTypes convert x names inferred) (ownTypes convert' x names inferred) := by
  unfold Conversion.ownTypes
  split
  · refine Agrees.map ?_ _
    refine (Agrees.refl _).bind fun primitives => (Agrees.refl _).bind fun strings => ?_
    refine ((h.arrayType x names).containerTypes x .array).bind fun arrays => ?_
    exact ((h.objectType x names).containerTypes x .object).bind fun objects => .refl _
  · exact .refl _

theorem Deepens.targetType (h : Deepens convert convert') (x : Subject) (own : Attributes)
    (target : Json) :
    Agrees (targetType convert x own target) (targetType convert' x own target) := by
  unfold Conversion.targetType
  split
  · refine (Agrees.refl _).bind fun found => ?_
    split
    · exact .refl _
    · exact h _ _ _
  · exact .refl _

theorem Deepens.caseTypes (h : Deepens convert convert') (x : Subject) (keyword : String)
    (a : Attributes) (cases : Json) :
    Agrees (caseTypes convert x keyword a cases) (caseTypes convert' x keyword a cases) := by
  unfold Conversion.caseTypes
  dsimp only
  split
  · exact h.convertCases _ a _
  · exact .refl _

theorem Deepens.choiceType (h : Deepens convert convert') (x : Subject) (t : NodeId)
    (inferred : Attributes) (keyword : String) (cases : Json) :
    Agrees (choiceType convert x t inferred keyword cases)
      (choiceType convert' x t inferred keyword cases) :=
  (h.caseTypes x keyword _ cases).bind fun _ => .refl _

theorem Deepens.convertObject (h : Deepens convert convert') (annotators : List Annotator)
    (schema : List (String × Json)) (place : Place) (a : Attributes) :
    Agrees (convertObject convert annotators schema place a)
      (convertObject convert' annotators schema place a) := by
  have hmembers : ∀ x t a, Agrees (memberTypes convert x t a) (memberTypes convert' x t a) := by
    intro x t a
    refine (h.ownTypes x _ _).bind fun own => ?_
    refine (Agrees.mapM (h.targetType x a) _).bind fun target => ?_
    refine (Agrees.mapM (h.caseTypes x "allOf" _) _).bind fun all => ?_
    refine (Agrees.mapM (h.choiceType x t _ "oneOf") _).bind fun one => ?_
    exact (Agrees.mapM (h.choiceType x t _ "anyOf") _).bind fun any => .refl _
  unfold Conversion.convertObject
  refine (Agrees.refl _).bind fun x => (Agrees.refl _).bind fun a => ?_
  refine (Agrees.refl _).bind fun t => (Agrees.refl _).bind fun _ => ?_
  exact (hmembers x t _).bind fun members => .refl _

theorem Deepens.convertSchema (h : Deepens convert convert') (annotators : List Annotator)
    (schema : Json) (place : Place) (a : Attributes) :
    Agrees (convertSchema convert annotators schema place a)
      (convertSchema convert' annotators schema place a) := by
  unfold Conversion.convertSchema
  split
  · exact .refl _
  · exact .refl _
  · exact h.convertObject annotators _ _ _
  · exact .refl _

theorem deepens_succ (annotators : List Annotator) (depth : Nat) :
    Deepens (toType annotators depth) (toType annotators (depth + 1)) := by
  -- Depth zero always gets too deep; above it both run the same steps on converters that agree.
  induction depth with
  | zero => exact fun v place a s hs => absurd rfl hs
  | succ depth ih =>
    intro v place a
    rw [toType, toType]
    refine (Agrees.refl _).bind fun s => ?_
    split
    · exact .refl _
    · exact (ih.convertSchema annotators v place a).bind fun t => .refl _

/-- A conversion that does not get too deep does the same when it may go deeper. -/
theorem agrees_toType (annotators : List Annotator) {depth deeper : Nat} (h : depth ≤ deeper)
    (v : Json) (place : Place) (a : Attributes) :
    Agrees (toType annotators depth v place a) (toType annotators deeper v place a) := by
  induction h with
  | refl => exact .refl _
  | step _ ih =>
    intro s hs
    have heq := ih s hs
    rw [deepens_succ annotators _ v place a s (by rw [heq]; exact hs), heq]

end JsonTyping.Conversion
