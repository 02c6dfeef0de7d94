import Noxara.CustomRecords
import Noxara.FormulaGrammar

/-! The formulas of a record. A formula has a value where it is a sentence whose operations have one, and it depends on
the fields that it names and on nothing else. So a save leaves every formula field with the value of its formula, where
no formula reads a later one. -/
namespace Noxara.Custom

open Words (Build)

/-- The value of a formula as the machine computes it, the left operand before the right one. -/
def Formula.compute (b : Build) (values : Values) : Formula → Run Json
  | operand o => pure (o.value values)
  | binary op left right => do
    let x ← left.compute b values
    let y ← right.compute b values
    numOp b x y op.apply

def Operand.fields : Operand → List String
  | number _ => []
  | field name => [name]

def Formula.fields : Formula → List String
  | operand o => o.fields
  | binary _ left right => left.fields ++ right.fields

theorem value_congr {u v : Values} {o : Operand} (h : ∀ name ∈ o.fields, u.get name = v.get name) :
    o.value u = o.value v := by
  cases o with
  | number n => rfl
  | field name =>
    change fieldValue u name = fieldValue v name
    unfold fieldValue
    rw [h name (List.mem_singleton_self _)]

theorem compute_congr (b : Build) {u v : Values} {f : Formula} (h : ∀ name ∈ f.fields, u.get name = v.get name) :
    f.compute b u = f.compute b v := by
  induction f with
  | operand o => exact congrArg pure (value_congr h)
  | binary op left right hleft hright =>
    simp only [Formula.compute]
    rw [hleft fun name hname => h name (List.mem_append_left _ hname),
      hright fun name hname => h name (List.mem_append_right _ hname)]

/-- The parser goes on as the formula that is read is computed, and ends with no value where none is read. -/
def Outcome (b : Build) (values : Values) (x : Except FormulaError (Formula × List Char))
    (r : Run (Json × List Char)) : Prop :=
  match x with
  | .ok (f, rest) => r = f.compute b values >>= fun v => pure (v, rest)
  | .error _ => ∀ y, r ≠ Run.of (.ok y)

section
variable {b : Build} {values : Values}

theorem Outcome.andThen {α : Type} {x : Traced (Formula × List Char)} {r : Run (Json × List Char)} {p : Run α}
    {g : Formula × List Char → Traced (Formula × List Char)}
      {k : α → Json × List Char → Run (Json × List Char)}
    (h : Outcome b values x.2 r)
    (hg : ∀ f rest, Outcome b values (g (f, rest)).2 (p >>= fun a => f.compute b values >>= fun v => k a (v, rest))) :
    Outcome b values (x.andThen g).2 (p >>= fun a => r >>= k a) := by
  obtain ⟨os, x⟩ := x
  cases x with
  | error e =>
    intro y hy
    obtain ⟨a, -, hrun⟩ := Run.bind_eq_ok.mp hy
    obtain ⟨z, hz, -⟩ := Run.bind_eq_ok.mp hrun
    exact h z hz
  | ok read =>
    obtain ⟨f, rest⟩ := read
    have hr : r = f.compute b values >>= fun v => pure (v, rest) := h
    subst hr
    simp only [bind_assoc, pure_bind]
    exact hg f rest

variable [CharTables]

/-- The parser at a place, where it holds the value of what it has read for its left operand. -/
def resume (b : Build) (values : Values) (n : Nat) : Part Formula → List Char → Run (Json × List Char)
  | .expr, cs => parse b values n .expr cs
  | .term, cs => parse b values n .term cs
  | .factor, cs => parse b values n .factor cs
  | .sums left, cs => left.compute b values >>= fun l => parse b values n (.sums l) cs
  | .products left, cs => left.compute b values >>= fun l => parse b values n (.products l) cs

theorem outcome_operator {n : Nat} (op : Op) {left : Formula} {operand : Part Formula} {operand' : Part Json}
    {loop : Formula → Part Formula} {loop' : Json → Part Json} {after : List Char}
    (hoperand : Outcome b values (read n operand after).2 (parse b values n operand' after))
    (hloop : ∀ (f : Formula) (rest : List Char), Outcome b values (read n (loop f) rest).2
      (f.compute b values >>= fun l => parse b values n (loop' l) rest)) :
    Outcome b values
      ((read n operand after).andThen fun right => (complete op left right.1).andThen fun l =>
        read n (loop l) right.2).2
      (left.compute b values >>= fun l => parse b values n operand' after >>= fun right =>
        numOp b l right.1 op.apply >>= fun l => parse b values n (loop' l) right.2) := by
  refine hoperand.andThen fun right rest => ?_
  have hrest := hloop (.binary op left right) rest
  simp only [Formula.compute, bind_assoc] at hrest
  exact hrest

attribute [local simp] read parse

theorem outcome_resume (n : Nat) (part : Part Formula) (cs : List Char) :
    Outcome b values (read n part cs).2 (resume b values n part cs) := by
  induction n generalizing part cs with
  | zero =>
    intro y hy
    cases part with
    | expr | term | factor => cases hy
    | sums | products =>
      obtain ⟨_, -, hrun⟩ := Run.bind_eq_ok.mp hy
      cases hrun
  | succ n ih =>
    have hsums := fun f rest => ih (.sums f) rest
    have hproducts := fun f rest => ih (.products f) rest
    cases part with
    | expr =>
      exact (ih .term cs).andThen (p := pure ()) (g := fun left => read n (.sums left.1) left.2)
        (k := fun _ left => parse b values n (.sums left.1) left.2) hsums
    | term =>
      exact (ih .factor cs).andThen (p := pure ()) (g := fun left => read n (.products left.1) left.2)
        (k := fun _ left => parse b values n (.products left.1) left.2) hproducts
    | sums left =>
      unfold resume
      by_cases hplus : (skipWs cs).head? = some '+'
      · obtain ⟨after, hafter⟩ := List.head?_eq_some_iff.mp hplus
        rw [read_plus _ _ hafter]
        simp only [parse_plus _ _ _ _ hafter]
        exact outcome_operator .add (ih .term after) hsums
      · by_cases hminus : (skipWs cs).head? = some '-'
        · obtain ⟨after, hafter⟩ := List.head?_eq_some_iff.mp hminus
          rw [read_minus _ _ hafter]
          simp only [parse_minus _ _ _ _ hafter]
          exact outcome_operator .sub (ih .term after) hsums
        · rw [read_sums_end _ _ hplus hminus]
          simp only [parse_sums_end _ _ _ _ hplus hminus]
          rfl
    | products left =>
      unfold resume
      by_cases hstar : (skipWs cs).head? = some '*'
      · obtain ⟨after, hafter⟩ := List.head?_eq_some_iff.mp hstar
        rw [read_star _ _ hafter]
        simp only [parse_star _ _ _ _ hafter]
        exact outcome_operator .mul (ih .factor after) hproducts
      · rw [read_products_end _ _ hstar]
        simp only [parse_products_end _ _ _ _ hstar]
        rfl
    | factor =>
      change Outcome b values (read (n + 1) .factor cs).2 (parse b values (n + 1) .factor cs)
      cases hskip : skipWs cs with
      | nil =>
        rw [read_factor_nil _ hskip, parse_factor_nil _ _ _ hskip]
        exact fun y hy => (by cases hy)
      | cons c after =>
        by_cases hparens : c = '('
        · subst hparens
          rw [read_parens _ hskip, parse_parens _ _ _ hskip]
          refine (ih .expr after).andThen (p := pure ()) (g := fun f => if (skipWs f.2).head? = some ')' then
            .returns (f.1, (skipWs f.2).tail) else .fails (.parse "expected ')'")) (k := fun _ v =>
              if (skipWs v.2).head? = some ')' then pure (v.1, (skipWs v.2).tail) else throw (.parse "expected ')'"))
            fun f rest => ?_
          split_ifs with hclose
          · rfl
          · intro y hy
            obtain ⟨_, -, hrun⟩ := Run.bind_eq_ok.mp hy
            obtain ⟨_, -, hrun⟩ := Run.bind_eq_ok.mp hrun
            cases hrun
        · rw [read_factor _ hskip hparens, parse_factor _ _ _ hskip hparens]
          split_ifs with hnumber hfield
          · unfold parseNumber
            cases readNumber (c :: after) with
            | error e => exact fun y hy => (by cases hy)
            | ok x => rfl
          · rfl
          · exact fun y hy => (by cases hy)

theorem sentence_of_read {expr : String} {f : Formula} {rest : List Char} (h : (readExpr expr).2 = .ok (f, rest))
    (hrest : skipWs rest = []) : Sentence expr f := by
  have hread : readExpr expr = ((readExpr expr).1, .ok (f, rest)) := Prod.ext rfl h
  obtain ⟨-, hoperations⟩ := reads_of_read hread
  change (readExpr expr).1 = f.operations at hoperations
  rw [hoperations] at hread
  exact sentence_iff.mpr ⟨rest, hread, hrest⟩

theorem evalFormula_eq (b : Build) (values : Values) {expr : String} {f : Formula} (hf : Sentence expr f)
    (hescapes : escapes expr = false) : evalFormula b expr values = f.compute b values := by
  obtain ⟨rest, hread, hrest⟩ := sentence_iff.mp hf
  have houtcome : Outcome b values (readExpr expr).2 (parseExpr b values expr.toList) := outcome_resume _ .expr _
  rw [hread] at houtcome
  have hparse : parseExpr b values expr.toList = f.compute b values >>= fun v => pure (v, rest) := houtcome
  unfold evalFormula
  rw [if_neg (by rw [hescapes]; exact Bool.false_ne_true), hparse]
  simp only [bind_assoc, pure_bind, hrest, if_true, bind_pure]

theorem sentence_of_value {expr : String} {v : Json} (h : evalFormula b expr values = Run.of (.ok v)) :
    escapes expr = false ∧ ∃ f, Sentence expr f := by
  have houtcome : Outcome b values (readExpr expr).2 (parseExpr b values expr.toList) := outcome_resume _ .expr _
  unfold evalFormula at h
  split_ifs at h with hescapes
  · cases h
  · refine ⟨Bool.eq_false_iff.mpr hescapes, ?_⟩
    obtain ⟨⟨w, rest⟩, hparse, hend⟩ := Run.bind_eq_ok.mp h
    split_ifs at hend with hrest
    · cases hread : (readExpr expr).2 with
      | error e =>
        rw [hread] at houtcome
        exact absurd hparse (houtcome _)
      | ok x =>
        obtain ⟨f, rest'⟩ := x
        rw [hread] at houtcome
        obtain ⟨_, -, hw⟩ := Run.bind_eq_ok.mp (houtcome.symm.trans hparse)
        cases hw
        exact ⟨f, sentence_of_read hread hrest⟩
    · cases hend

/-- In every build a sentence comes to what its operations come to one after another, and nothing else has a value. -/
theorem formula_computed (b : Build) (expr : String) (values : Values) :
    (∀ f, Sentence expr f → escapes expr = false → evalFormula b expr values = f.compute b values) ∧
      ∀ v, evalFormula b expr values = Run.of (.ok v) → escapes expr = false ∧ ∃ f, Sentence expr f :=
  ⟨fun _ hf hescapes => evalFormula_eq b values hf hescapes, fun _ h => sentence_of_value h⟩

theorem evalFormula_congr {expr : String} {u : Values} {v : Json} (h : evalFormula b expr u = Run.of (.ok v))
    (hsame : ∀ f, Sentence expr f → ∀ name ∈ f.fields, values.get name = u.get name) :
    evalFormula b expr values = Run.of (.ok v) := by
  obtain ⟨hescapes, f, hf⟩ := sentence_of_value h
  rw [evalFormula_eq b u hf hescapes] at h
  rw [evalFormula_eq b values hf hescapes, compute_congr b (hsame f hf), h]

end

/-- The formula that gives the field its value. -/
def FieldDef.computed (f : FieldDef) : Option String := if f.fieldType = .formula then f.formula else none

/-- The formula of the first field names the second, which is computed. -/
def FieldDef.Names (f g : FieldDef) : Prop :=
  g.computed.isSome ∧ ∃ expr t, f.computed = some expr ∧ Sentence expr t ∧ g.name ∈ t.fields

/-- Every field has a name of its own, and no formula names a field that is computed with it or after it. -/
structure Ordered (fields : List FieldDef) : Prop where
  names : (fields.map (·.name)).Nodup
  self : ∀ f ∈ fields, ¬f.Names f
  later : fields.Pairwise fun f g => ¬f.Names g

section
variable [CharTables] {b : Build} {fields : List FieldDef} {values out : Values}

/-- The values pass the checks, and every field that is computed has the value of its formula over them. -/
structure Complete (b : Build) (fields : List FieldDef) (values : Values) : Prop where
  valid : validateValues fields values = .ok ()
  formulas : ∀ f ∈ fields, ∀ expr, f.computed = some expr →
    ∃ v, values.get f.name = some v ∧ evalFormula b expr values = Run.of (.ok v)

theorem applyFormulas_computed {f : FieldDef} {expr : String} (h : f.computed = some expr) (b : Build)
    (fields : List FieldDef) (values : Values) : applyFormulas b (f :: fields) values =
      evalFormula b expr values >>= fun v => applyFormulas b fields (values.insert f.name v) := by
  unfold FieldDef.computed at h
  split_ifs at h with htype
  simp only [applyFormulas, htype, h]

theorem applyFormulas_other {f : FieldDef} (h : f.computed = none) (b : Build) (fields : List FieldDef)
    (values : Values) :
    applyFormulas b (f :: fields) values = applyFormulas b fields values := by
  unfold FieldDef.computed at h
  cases htype : f.fieldType <;> cases hformula : f.formula <;> simp_all [applyFormulas]

theorem get_applyFormulas {name : String} (h : applyFormulas b fields values = Run.of (.ok out))
    (hname : ∀ f ∈ fields, f.computed.isSome → f.name ≠ name) : out.get name = values.get name := by
  induction fields generalizing values with
  | nil =>
    cases h
    rfl
  | cons f fields ih =>
    have hrest := fun g hg => hname g (List.mem_cons_of_mem f hg)
    cases hf : f.computed with
    | none =>
      rw [applyFormulas_other hf] at h
      exact ih h hrest
    | some expr =>
      rw [applyFormulas_computed hf] at h
      obtain ⟨v, -, h⟩ := Run.bind_eq_ok.mp h
      rw [ih h hrest]
      exact values.get_insert_ne v (Ne.symm (hname f List.mem_cons_self (by rw [hf]; rfl)))

/-- Only fields that are computed are added. -/
theorem keys_applyFormulas {key : String} (h : applyFormulas b fields values = Run.of (.ok out))
    (hkey : key ∈ out.keys) :
    key ∈ values.keys ∨ ∃ f ∈ fields, f.name = key := by
  induction fields generalizing values with
  | nil =>
    cases h
    exact .inl hkey
  | cons f fields ih =>
    have hrest : (∃ g ∈ fields, g.name = key) → ∃ g ∈ f :: fields, g.name = key :=
      fun ⟨g, hg, hname⟩ => ⟨g, List.mem_cons_of_mem f hg, hname⟩
    cases hf : f.computed with
    | none =>
      rw [applyFormulas_other hf] at h
      exact (ih h).imp_right hrest
    | some expr =>
      rw [applyFormulas_computed hf] at h
      obtain ⟨v, -, h⟩ := Run.bind_eq_ok.mp h
      rcases ih h with hkey | hkey
      · rcases SortedMap.mem_keys_insert hkey with rfl | hkey
        · exact .inr ⟨f, List.mem_cons_self, rfl⟩
        · exact .inl hkey
      · exact .inr (hrest hkey)

theorem formulas_applyFormulas (ho : Ordered fields) (h : applyFormulas b fields values = Run.of (.ok out)) :
    ∀ f ∈ fields, ∀ expr, f.computed = some expr →
      ∃ v, out.get f.name = some v ∧ evalFormula b expr out = Run.of (.ok v) := by
  induction fields generalizing values with
  | nil => exact fun f hf => (by cases hf)
  | cons f fields ih =>
    obtain ⟨hname, hnames⟩ := List.nodup_cons.mp ho.names
    obtain ⟨hlater, hlaters⟩ := List.pairwise_cons.mp ho.later
    have hrest : Ordered fields := ⟨hnames, fun g hg => ho.self g (List.mem_cons_of_mem f hg), hlaters⟩
    cases hf : f.computed with
    | none =>
      rw [applyFormulas_other hf] at h
      intro g hg expr hexpr
      rcases List.mem_cons.mp hg with rfl | hg
      · cases hf.symm.trans hexpr
      · exact ih hrest h g hg expr hexpr
    | some formula =>
      have hsome : f.computed.isSome := by
        rw [hf]
        rfl
      rw [applyFormulas_computed hf] at h
      obtain ⟨v, hv, h⟩ := Run.bind_eq_ok.mp h
      intro g hg expr hexpr
      rcases List.mem_cons.mp hg with rfl | hg
      · obtain rfl := Option.some.inj (hf.symm.trans hexpr)
        have hkept : out.get g.name = some v := by
          rw [get_applyFormulas h fun g' hg' _ heq => hname (List.mem_map.mpr ⟨g', hg', heq⟩)]
          exact values.get_insert_self g.name v
        refine ⟨v, hkept, evalFormula_congr hv fun t ht name hread => ?_⟩
        -- the formula names neither its own field nor one that is computed after it
        have hself : name ≠ g.name := by
          rintro rfl
          exact ho.self g List.mem_cons_self ⟨hsome, formula, t, hf, ht, hread⟩
        rw [get_applyFormulas h, values.get_insert_ne v hself]
        rintro g' hg' hcomputed rfl
        exact hlater g' hg' ⟨hcomputed, formula, t, hf, ht, hread⟩
      · exact ih hrest h g hg expr hexpr

omit [CharTables] in
theorem validateValues_eq_ok : validateValues fields values = .ok () ↔
    (∀ key ∈ values.keys, ∃ f ∈ fields, f.name = key) ∧ ∀ f ∈ fields, f.validate values = .ok () := by
  have hforM : ∀ fs : List FieldDef, fs.forM (fun f => f.validate values) = .ok () ↔
      ∀ f ∈ fs, f.validate values = .ok () := by
    intro fs
    induction fs with
    | nil => simp [List.forM, pure, Except.pure]
    | cons f fs ih =>
      change (f.validate values >>= fun _ => fs.forM fun f => f.validate values) = _ ↔ _
      rw [List.forall_mem_cons, ← ih]
      cases f.validate values <;> simp [bind, Except.bind]
  unfold validateValues
  cases hfind : values.keys.find? fun key => ∀ f ∈ fields, f.name ≠ key with
  | some key =>
    refine ⟨fun h => (by cases h), fun h => ?_⟩
    obtain ⟨f, hf, hname⟩ := h.1 key (List.mem_of_find?_eq_some hfind)
    have hunknown := List.find?_some hfind
    exact absurd hname (of_decide_eq_true hunknown f hf)
  | none =>
    rw [List.find?_eq_none] at hfind
    refine (hforM fields).trans ⟨fun h => ⟨fun key hkey => ?_, h⟩, fun h => h.2⟩
    have hknown := hfind key hkey
    simpa using hknown

theorem complete_of_prepare (ho : Ordered fields) (h : prepare b fields values = .ok out) : Complete b fields out := by
  unfold prepare at h
  cases hvalid : validateValues fields values with
  | error e =>
    rw [hvalid] at h
    cases h
  | ok u =>
    rw [hvalid] at h
    obtain ⟨hknown, hchecks⟩ := validateValues_eq_ok.mp hvalid
    have happly : applyFormulas b fields values = Run.of (.ok out) := by
      cases hrun : (applyFormulas b fields values).run with
      | none =>
        rw [hrun] at h
        cases h
      | some result =>
        rw [hrun] at h
        cases result with
        | error e => cases h
        | ok values =>
          cases h
          exact hrun
    refine ⟨validateValues_eq_ok.mpr ⟨fun key hkey => ?_, fun f hf => ?_⟩, formulas_applyFormulas ho happly⟩
    · exact (keys_applyFormulas happly hkey).elim (hknown key) id
    · have hcheck := hchecks f hf
      unfold FieldDef.validate at hcheck ⊢
      by_cases htype : f.fieldType = .formula
      · exact if_pos htype
      · have hkept : out.get f.name = values.get f.name := by
          refine get_applyFormulas happly fun g hg hcomputed hname => htype ?_
          obtain rfl := List.inj_on_of_nodup_map ho.names hg hf hname
          by_contra hother
          rw [FieldDef.computed, if_neg hother] at hcomputed
          cases hcomputed
        unfold present at hcheck ⊢
        rw [hkept]
        exact hcheck

end

end Noxara.Custom
