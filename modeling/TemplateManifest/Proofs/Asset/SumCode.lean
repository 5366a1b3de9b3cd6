import TemplateManifest.Proofs.Asset.Spelling
import TemplateManifest.Proofs.Compile.PathCode
import TemplateManifest.Proofs.Compile.Quoting

/-!
How the search for a computed path fits the code that is emitted for it. Main statement: the code of a
sum of literals and variables is matched in full, and gives the texts of its variables, exactly when all
its variables end in a word character.
-/

namespace TemplateManifest

open Script Text Vocabulary

theorem isWordCharacter_of_isDigit {c : Char} (h : c.isDigit = true) : isWordCharacter c = true := by
  have hrange : 48 ≤ c.toNat ∧ c.toNat ≤ 57 := by
    simpa [Char.isDigit, UInt32.le_iff_toNat_le] using h
  exact Bool.or_eq_true_iff.mpr (.inr (inRanges_iff.mpr ⟨(48, 57), by decide, hrange⟩))

namespace Script

/-- The last character of a variable is a word character. -/
def Variable.endsInWord (v : Variable) : Bool :=
  v.text.toList.getLast?.any isWordCharacter

/-- The variable that an expression is ends in a word character. -/
def Expr.endsInWord : Expr → Bool
  | .variable v => v.endsInWord
  | _ => true

/-- All variables inside an expression end in word characters. -/
def Expr.variablesEndInWord (e : Expr) : Bool :=
  e.parts.all Expr.endsInWord

theorem Variable.endsInWord_temp (index : Nat) : (Variable.temp index).endsInWord = true := by
  have hne : Nat.toDigits 10 index ≠ [] := Nat.toDigits_ne_nil
  have hlast : isWordCharacter ((Nat.toDigits 10 index).getLast hne) = true :=
    isWordCharacter_of_isDigit (isDigit_of_mem_decimalDigits (List.getLast_mem hne))
  rw [endsInWord, text, String.toList_append, List.getLast?_append, String.toList_ofList,
    List.getLast?_eq_some_getLast hne]
  exact hlast

@[simp]
theorem Expr.variablesEndInWord_ofNode (node : Node) (code : Expr) :
    (Expr.ofNode node code).variablesEndInWord = code.variablesEndInWord := rfl

@[simp]
theorem Expr.variablesEndInWord_operation (op : Operator) (left right : Expr) :
    (Expr.operation op left right).variablesEndInWord =
      (left.variablesEndInWord && right.variablesEndInWord) := by
  simp [variablesEndInWord, Expr.parts, Expr.endsInWord]

@[simp]
theorem Expr.variablesEndInWord_variable (v : Variable) :
    (Expr.variable v).variablesEndInWord = v.endsInWord := by
  simp [variablesEndInWord, Expr.parts, Expr.endsInWord]

theorem variablesEndInWord_literal (value : Literal) : (literal value).variablesEndInWord = true := by
  cases value <;> rfl

theorem variablesEndInWord_contextLookup (symbol : String) :
    (contextLookup symbol).variablesEndInWord = true := by
  have hnames : ∀ word ∈ ["runtime", "context", "frame"], (Variable.named word).endsInWord = true := by
    decide +kernel
  simp only [List.forall_mem_cons] at hnames
  simp [Expr.variablesEndInWord, contextLookup, runtime, method, name, Expr.parts, Expr.partsAll,
    Expr.endsInWord, hnames]

end Script

namespace Fragment

/-- What a search for a sum gives from what it gives for the first operands and for the others. -/
def joined (found : List (List Char) × List Char)
    (next? : List Char → Option (List (List Char) × List Char)) :
    Option (List (List Char) × List Char) :=
  (after? [' ', '+', ' '] found.2).bind fun rest =>
    (next? rest).map fun more => (found.1 ++ more.1, more.2)

theorem sumAt?_cons (fragment : Fragment) {fragments : List Fragment} (h : fragments ≠ [])
    (text : List Char) :
    sumAt? (fragment :: fragments) text =
      (fragment.compiledAt? text).bind fun found => joined found (sumAt? fragments) := by
  rw [sumAt?]
  · cases fragment.compiledAt? text with
    | none => rfl
    | some found =>
      cases hplus : after? [' ', '+', ' '] found.2 <;> simp [joined, hplus]
  · exact h

/-- A sum is matched operand by operand, with a plus sign between them. -/
theorem sumAt?_append {before after : List Fragment} (hbefore : before ≠ []) (hafter : after ≠ [])
    (text : List Char) :
    sumAt? (before ++ after) text =
      (sumAt? before text).bind fun found => joined found (sumAt? after) := by
  induction before generalizing text with
  | nil => exact absurd rfl hbefore
  | cons fragment before ih =>
    cases before with
    | nil =>
      rw [List.singleton_append, sumAt?_cons fragment hafter]
      rfl
    | cons next before =>
      have hnext : next :: before ≠ [] := List.cons_ne_nil _ _
      rw [List.cons_append, sumAt?_cons fragment (List.append_ne_nil_of_left_ne_nil hnext after),
        sumAt?_cons fragment hnext, Option.bind_assoc]
      refine congrArg _ (funext fun found => ?_)
      simp only [joined]
      cases after? [' ', '+', ' '] found.2 with
      | none => rfl
      | some rest =>
        rw [Option.bind_some, Option.bind_some, ih hnext]
        cases sumAt? (next :: before) rest with
        | none => rfl
        | some further =>
          simp only [joined, Option.bind_some, Option.map_some]
          cases after? [' ', '+', ' '] further.2 with
          | none => rfl
          | some rest => simp [Function.comp_def]

/-- A variable is matched if it ends in a word character: that is where a word ends when no word
    character follows. -/
theorem compiledAt?_variable {symbol : String} {v : Variable} {rest : List Char} (hv : v.CanHold symbol)
    (hrest : rest.head?.any isWordCharacter = false) :
    (Fragment.symbol symbol).compiledAt? (v.text.toList ++ rest) =
      if v.endsInWord then some ([v.text].map String.toList, rest) else none := by
  match v, hv with
  | .temp index, _ =>
    rw [Variable.endsInWord_temp, if_pos rfl]
    refine compiledAt?_eq_some_iff.mpr ⟨_, rfl, .symbol ?_⟩
    have htext : (Variable.temp index).text.toList = 't' :: '_' :: Nat.toDigits 10 index := by
      simp [Variable.text]
    rw [htext]
    refine .temp Nat.toDigits_ne_nil (fun _ => isDigit_of_mem_decimalDigits) fun c hc hdigit => ?_
    rw [Option.mem_def.mp hc, Option.any_some, isWordCharacter_of_isDigit hdigit] at hrest
    cases hrest
  | .param name, hname =>
    obtain rfl := hname.1
    have hboundary : isWordBoundary (Variable.param name).text.toList.getLast? rest.head? =
        (Variable.param name).endsInWord := by
      rw [isWordBoundary, hrest, Variable.endsInWord, Bool.bne_false]
    split
    · next hend => exact compiledAt?_eq_some_iff.mpr ⟨_, rfl, .symbol (.param (hboundary.trans hend))⟩
    · next hend =>
      refine Option.eq_none_iff_forall_ne_some.mpr fun found hfound => ?_
      obtain ⟨values, following⟩ := found
      obtain ⟨spelled, htext, hspells⟩ := compiledAt?_eq_some_iff.mp hfound
      cases hspells with
      | symbol hvalue =>
        cases hvalue with
        | lookup =>
          have hhead := congrArg List.head? htext
          rw [List.head?_append, List.head?_append, head?_param, head?_contextLookup] at hhead
          cases hhead
        | temp =>
          have hhead := congrArg List.head? htext
          rw [List.head?_append, head?_param] at hhead
          cases hhead
        | param hend' =>
          obtain rfl := List.append_cancel_left htext
          exact hend (hboundary.symm.trans hend')

end Fragment

theorem Node.fragments_ne_nil {node : Node} {fragments : List Fragment}
    (h : node.fragments = .ok fragments) : fragments ≠ [] := by
  fun_induction Node.fragments node generalizing fragments with
  | case3 pos left right before hleft after hright ihleft ihright =>
    obtain rfl := Except.ok.inj h
    exact fun hnil => ihleft hleft (List.append_eq_nil_iff.mp hnil).1
  | case1 | case2 | case6 => cases h
  | case4 | case5 =>
    obtain rfl := Except.ok.inj h
    exact List.cons_ne_nil _ _

namespace CodeContext

open Coder

variable {cx : CodeContext}

/-- The code of a literal, of a variable or of a sum of them leaves the state as it is. -/
theorem state_of_fragments {node : Node} {fragments : List Fragment} {s t : CodeState} {code : Expr}
    (hnode : node.fragments = .ok fragments) (h : cx.expression node s = .ok code t) : t = s := by
  fun_induction Node.fragments node generalizing fragments s t code with
  | case3 pos left right before hleft after hright ihleft ihright =>
    obtain ⟨l, u, r, hl, hr, -⟩ := expression_sum_eq_ok hleft hright h
    rw [ihright hright hr, ihleft hleft hl]
  | case1 | case2 | case6 => cases hnode
  | case4 pos value => exact (expression_literal_eq_ok_iff.mp h).2
  | case5 pos symbol => exact (expression_symbol_eq_ok_iff.mp h).1

/-- The code of a sum is matched in full, and gives the texts of its variables, if all of them end in
    word characters; otherwise it is not matched. -/
theorem sumAt?_code {node : Node} {fragments : List Fragment} {s t : CodeState} {code : Expr}
    {rest : List Char} (hnode : node.fragments = .ok fragments) (hs : s.IsScoped)
    (h : cx.expression node s = .ok code t) (hrest : rest.head?.any isWordCharacter = false) :
    Fragment.sumAt? fragments (code.text.toList ++ rest) =
      if code.variablesEndInWord then some (code.values.map String.toList, rest) else none := by
  fun_induction Node.fragments node generalizing fragments s t code rest with
  | case1 | case2 | case6 => cases hnode
  | case3 pos left right before hleft after hright ihleft ihright =>
    obtain rfl := Except.ok.inj hnode
    obtain ⟨l, u, r, hl, hr, rfl⟩ := expression_sum_eq_ok hleft hright h
    obtain rfl := state_of_fragments hleft hl
    have htext : (Expr.ofNode (.binary pos .add left right) (.operation .add l r)).text.toList ++ rest =
        l.text.toList ++ ([' ', '+', ' '] ++ (r.text.toList ++ rest)) := by
      simp [Expr.text, Operator.text]
    have hspace : ([' ', '+', ' '] ++ (r.text.toList ++ rest)).head?.any isWordCharacter = false := by
      have hspace : isWordCharacter ' ' = false := by decide +kernel
      rw [List.cons_append, List.head?_cons, Option.any_some, hspace]
    rw [htext, Fragment.sumAt?_append (Node.fragments_ne_nil hleft) (Node.fragments_ne_nil hright),
      ihleft hleft hs hl hspace]
    simp only [Expr.variablesEndInWord_ofNode, Expr.variablesEndInWord_operation]
    cases l.variablesEndInWord with
    | false => rfl
    | true =>
      have hplus : after? [' ', '+', ' '] ([' ', '+', ' '] ++ (r.text.toList ++ rest)) =
          some (r.text.toList ++ rest) := after?_eq_some_iff.mpr rfl
      have hright := ihright hright hs hr hrest
      simp only [if_true, Option.bind_some, Fragment.joined, hplus, hright, Bool.true_and]
      cases r.variablesEndInWord <;> simp [Expr.values]
  | case4 pos value =>
    obtain rfl := Except.ok.inj hnode
    obtain ⟨rfl, -⟩ := expression_literal_eq_ok_iff.mp h
    rw [Expr.variablesEndInWord_ofNode, variablesEndInWord_literal, if_pos rfl, Expr.values,
      values_literal]
    exact Fragment.compiledAt?_eq_some_iff.mpr ⟨_, rfl, .literal value⟩
  | case5 pos symbol =>
    obtain rfl := Except.ok.inj hnode
    rw [Fragment.sumAt?, expression_symbol_values h]
    obtain ⟨rfl, rfl⟩ := expression_symbol_eq_ok_iff.mp h
    cases hv : t.holder? symbol with
    | none =>
      rw [Option.elim_none, Expr.variablesEndInWord_ofNode, variablesEndInWord_contextLookup, if_pos rfl]
      exact Fragment.compiledAt?_eq_some_iff.mpr ⟨_, rfl, .symbol .lookup⟩
    | some v =>
      rw [Option.elim_some, Expr.variablesEndInWord_ofNode, Expr.variablesEndInWord_variable]
      exact Fragment.compiledAt?_variable (hs.canHold hv) hrest

/-- The values in the code of a sum are the texts of the codes of its variables. -/
theorem values_sumCode {node : Node} {fragments : List Fragment} {s t : CodeState} {code : Expr}
    (hnode : node.fragments = .ok fragments) (h : cx.expression node s = .ok code t) :
    List.Forall₂ (fun symbol value => ∃ pos inner, .ofNode (.symbol pos symbol) inner ∈ code.parts ∧
      inner.text = value) (fragments.filterMap Fragment.variableName?) code.values := by
  fun_induction Node.fragments node generalizing fragments s t code with
  | case1 | case2 | case6 => cases hnode
  | case3 pos left right before hleft after hright ihleft ihright =>
    obtain rfl := Except.ok.inj hnode
    obtain ⟨l, u, r, hl, hr, rfl⟩ := expression_sum_eq_ok hleft hright h
    rw [List.filterMap_append]
    refine List.rel_append ((ihleft hleft hl).imp ?_) ((ihright hright hr).imp ?_)
    · rintro symbol value ⟨pos, inner, hpart, hvalue⟩
      exact ⟨pos, inner, List.mem_cons_of_mem _ (List.mem_cons_of_mem _
        (List.mem_append_left _ hpart)), hvalue⟩
    · rintro symbol value ⟨pos, inner, hpart, hvalue⟩
      exact ⟨pos, inner, List.mem_cons_of_mem _ (List.mem_cons_of_mem _
        (List.mem_append_right _ hpart)), hvalue⟩
  | case4 pos value =>
    obtain rfl := Except.ok.inj hnode
    rw [(expression_literal_eq_ok_iff.mp h).1, Expr.values, values_literal]
    exact .nil
  | case5 pos symbol =>
    obtain rfl := Except.ok.inj hnode
    rw [expression_symbol_values h]
    obtain ⟨rfl, rfl⟩ := expression_symbol_eq_ok_iff.mp h
    exact .cons ⟨pos, _, List.mem_cons_self, rfl⟩ .nil

end CodeContext

/-- Every sum of a template has code in the module. Wherever code stands for a sum of literals and
    variables, the search for that sum matches all of it and gives the texts of the codes of the
    variables, if each of them ends in a word character; otherwise it does not match it. -/
theorem Template.sumCode_compile {env : Environment} {name source moduleVar : String}
    {template : Template} {module : Module} (hparse : Template.parse env name source = .ok template)
    (hcompile : template.compile env moduleVar = .ok module) :
    (∀ node ∈ template.walk, node.category = .add → ∃ code, .ofNode node code ∈ module.parts) ∧
      ∀ node code, .ofNode node code ∈ module.parts →
        ∀ fragments, node.fragments = .ok fragments →
          List.Forall₂ (fun symbol value => ∃ pos inner,
            .ofNode (.symbol pos symbol) inner ∈ (Expr.ofNode node code).parts ∧ inner.text = value)
            (fragments.filterMap Fragment.variableName?) code.values ∧
          ∀ rest : List Char, rest.head?.any isWordCharacter = false →
            Fragment.sumAt? fragments (code.text.toList ++ rest) =
              if code.variablesEndInWord then some (code.values.map String.toList, rest)
              else none := by
  obtain ⟨hclean, hquoted⟩ := Template.quotes_compile (Template.isNamed_of_parse hparse) hcompile
  refine ⟨fun node hnode hadd => ?_, fun node code hpart fragments hfragments => ?_⟩
  · rcases hquoted node hnode with ⟨-, hsum⟩ | ⟨b, hb, -⟩
    · exact hsum hadd
    · cases hb
  · obtain ⟨-, s, t, hs, hcode⟩ := Module.allowed_of_mem_parts hclean _ hpart rfl
    refine ⟨CodeContext.values_sumCode hfragments hcode, fun rest hrest => ?_⟩
    have hsum := CodeContext.sumAt?_code hfragments hs hcode hrest
    rwa [Expr.text, Expr.values, Expr.variablesEndInWord_ofNode] at hsum

/-- The node and its code, if an expression is the code of a node. -/
def Script.Expr.ofNode? : Expr → Option (Node × Expr)
  | .ofNode node code => some (node, code)
  | _ => none

/-- The parameter of a macro in a path. -/
theorem Template.sumCode_compile_parameter :
    let source :=
      "\x7b% macro icon(x) %\x7d\x7b\x7b static(\"icons/\" + x) \x7d\x7d\x7b% endmacro %\x7d"
    let fragments : List Fragment := [.literal (.str "icons/"), .symbol "x"]
    ∃ template module node code, Template.parse {} "t.njk" source = .ok template ∧
      template.compile {} "template" = .ok module ∧ .ofNode node code ∈ module.parts ∧
      node.fragments = .ok fragments ∧
      Fragment.sumAt? fragments code.text.toList = some ([['l', '_', 'x']], []) := by
  intro source fragments
  have hfound : (Template.parse {} "t.njk" source).toOption.any fun template =>
      (template.compile {} "template").toOption.any fun module =>
        module.parts.any fun part => part.ofNode?.any fun sum =>
          sum.1.fragments.toOption.any fun found =>
            found = fragments ∧ sum.2.variablesEndInWord ∧ sum.2.values = ["l_x"] := by
    decide +kernel
  obtain ⟨template, hparse, hfound⟩ := exists_eq_ok_of_any hfound
  obtain ⟨module, hcompile, hfound⟩ := exists_eq_ok_of_any hfound
  obtain ⟨part, hpart, hfound⟩ := List.any_eq_true.mp hfound
  cases part with
  | ofNode node code =>
    obtain ⟨_, hfragments, hfound⟩ := exists_eq_ok_of_any hfound
    obtain ⟨rfl, hends, hvalues⟩ := of_decide_eq_true hfound
    obtain ⟨-, hcode⟩ := Template.sumCode_compile hparse hcompile
    have hsum := (hcode node code hpart fragments hfragments).2 [] rfl
    rw [if_pos hends, hvalues, List.append_nil] at hsum
    exact ⟨template, module, node, code, hparse, hcompile, hpart, hfragments, hsum⟩
  | _ => cases hfound

/-- The search for a path does not match the code of the path where a parameter ends in a dollar sign:
    no word ends there. -/
theorem Template.exists_unmatched_sum :
    let source :=
      "\x7b% macro icon(x$) %\x7d\x7b\x7b static(\"icons/\" + x$) \x7d\x7d\x7b% endmacro %\x7d"
    ∃ template module node code fragments, Template.parse {} "t.njk" source = .ok template ∧
      template.compile {} "template" = .ok module ∧ .ofNode node code ∈ module.parts ∧
      node.fragments = .ok fragments ∧ Fragment.sumAt? fragments code.text.toList = none := by
  intro source
  have hfound : (Template.parse {} "t.njk" source).toOption.any fun template =>
      (template.compile {} "template").toOption.any fun module =>
        module.parts.any fun part => part.ofNode?.any fun sum =>
          sum.1.fragments.toOption.any fun fragments =>
            Fragment.sumAt? fragments sum.2.text.toList = none := by
    decide +kernel
  obtain ⟨template, hparse, hfound⟩ := exists_eq_ok_of_any hfound
  obtain ⟨module, hcompile, hfound⟩ := exists_eq_ok_of_any hfound
  obtain ⟨part, hpart, hfound⟩ := List.any_eq_true.mp hfound
  cases part with
  | ofNode node code =>
    obtain ⟨fragments, hfragments, hfound⟩ := exists_eq_ok_of_any hfound
    exact ⟨template, module, node, code, fragments, hparse, hcompile, hpart, hfragments,
      of_decide_eq_true hfound⟩
  | _ => cases hfound

end TemplateManifest
