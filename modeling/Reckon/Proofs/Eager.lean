import Reckon.CommandLine.Run
import Reckon.Proofs.Shape

/-! Reverse Polish notation may be evaluated as it comes or collected first: the value, the errors
and the exit code are the same. -/

namespace Reckon

variable {text : String} {ts us : List Token} {t : Token} {e : Fault}

theorem evaluate_toRpn (text : String) (r : Reporter) :
    (evaluate (toRpn (Scanner.ofText text))).1.mapError .evaluation = (calculate text r).1 :=
  congrArg (Except.mapError Error.evaluation) (evaluate_toList (Rpn.ofStream (Scanner.ofText text)))

/-- The last character of the message is no line feed, if there is one at all. -/
def Fault.StaysOnLine (e : Fault) : Prop := e.message.toList.getLast? ≠ some '\n'

theorem Fault.staysOnLine_unopened (p : Parenthesis) : (unopened p).StaysOnLine := by
  simp [StaysOnLine, unopened]

theorem Fault.staysOnLine_unclosed (p : Parenthesis) : (unclosed p).StaysOnLine := by
  simp [StaysOnLine, unclosed]

theorem Fault.staysOnLine_outOfRange (s : Span) : (outOfRange s).StaysOnLine := by
  simp [StaysOnLine, outOfRange]

theorem Fault.staysOnLine_unexpectedChar (s : Span) {c : Char} (hc : Text.isBlank c = false) :
    (unexpectedChar s c).StaysOnLine := by
  have hne : c ≠ '\n' := by
    rintro rfl
    cases hc
  simpa [StaysOnLine, unexpectedChar] using hne

theorem Lexes.staysOnLine {source : Source} {i : Nat} {cs : List Char}
    (h : Lexes source i cs ts) (he : .fault e ∈ ts) : e.StaysOnLine := by
  induction h with
  | stop => simp at he
  | blank _ _ ih => exact ih he
  | number _ _ _ _ _ ih | operator _ _ ih | opening _ ih | closing _ ih =>
    exact ih (by simpa using he)
  | outOfRange =>
    cases List.mem_singleton.1 he
    exact Fault.staysOnLine_outOfRange _
  | unexpected hb =>
    cases List.mem_singleton.1 he
    exact Fault.staysOnLine_unexpectedChar _ hb

theorem staysOnLine_of_mem_toRpn (he : .fault e ∈ toRpn (Scanner.ofText text)) :
    e.StaysOnLine := by
  rw [toRpn_ofText] at he
  rcases Yard.fault_of_mem_released he with he | ⟨p, _, rfl | rfl⟩
  · by_cases hne : text = ""
    · subst hne
      rw [tokenize_empty] at he
      cases he
    · exact (lexes_tokenize hne).staysOnLine he
  · exact Fault.staysOnLine_unopened p
  · exact Fault.staysOnLine_unclosed p

/-- Dropping a space in front does not change how a text ends. -/
theorem getLast?_renderTrimmed (ts : List Token) :
    (renderTrimmed ts).toList.getLast? = some '\n' ↔ (render ts).toList.getLast? = some '\n' := by
  unfold renderTrimmed
  split
  · next cs h =>
    rw [h]
    cases cs <;> simp
  · simp

theorem getLast?_toList_append {x y : String} {c : Char} (h : y.toList.getLast? = some c) :
    (x ++ y).toList.getLast? = some c := by
  rw [String.toList_append, List.getLast?_append, h, Option.some_or]

theorem Token.getLast?_rendered_fault (h : e.StaysOnLine) :
    ∃ c, (fault e).rendered.toList.getLast? = some c ∧ c ≠ '\n' := by
  have hrendered : (fault e).rendered =
      "\nError happened at " ++ e.span.text ++ ".\nMessage: " ++ e.message := rfl
  rw [hrendered]
  rcases hm : e.message.toList.getLast? with _ | c
  · have hempty : e.message = "" := by
      rw [List.getLast?_eq_none_iff] at hm
      exact String.toList_inj.1 hm
    refine ⟨' ', ?_, by decide⟩
    rw [hempty, String.append_empty]
    exact getLast?_toList_append rfl
  · refine ⟨c, getLast?_toList_append hm, ?_⟩
    rintro rfl
    exact h hm

/-- Unless a line break is added, a trace ends with one only at the end of input. -/
theorem getLast?_renderTrimmed_toRpn (text : String) :
    (renderTrimmed (toRpn (Scanner.ofText text))).toList.getLast? = some '\n' ↔
      (toRpn (Scanner.ofText text)).getLast? = some .endOfInput := by
  rw [getLast?_renderTrimmed]
  by_cases hne : text = ""
  · subst hne
    rw [toRpn_ofText, tokenize_empty]
    simp [Yard.released]
  obtain ⟨us, t, heq, _, ht⟩ := Yard.released_ends (y := {}) (ends_tokenize hne) rfl
  rw [← toRpn_ofText] at heq
  rw [heq, List.getLast?_concat, render_append, render_cons, render_nil, String.append_empty,
    String.toList_append, List.getLast?_append]
  rcases ht with ⟨ht, _⟩ | ⟨rfl, _⟩
  · cases t with
    | fault e =>
      have hmem : .fault e ∈ toRpn (Scanner.ofText text) := by
        rw [heq]
        exact List.mem_append_right _ List.mem_cons_self
      obtain ⟨c, hc, hne⟩ := Token.getLast?_rendered_fault (staysOnLine_of_mem_toRpn hmem)
      rw [hc, Option.some_or]
      simp only [Option.some.injEq, hne, reduceCtorEq]
    | _ => cases ht
  · have hbreak : Token.endOfInput.rendered.toList.getLast? = some '\n' := rfl
    rw [hbreak, Option.some_or]
    simp only

namespace CommandLine

/-- A text in reverse Polish notation as it is printed: the end of input is a line break, and where
there is none a line break is added. -/
def trace (text : String) : String :=
  let tokens := toRpn (Scanner.ofText text)
  renderTrimmed tokens ++ if tokens.getLast? = some .endOfInput then "" else "\n"

/-- The trace comes first, and all else is as without it. -/
theorem runExpression_true (text : String) (r : Reporter) :
    runExpression true text r =
      (trace text ++ runExpression.printed (calculate text r).1,
        r.receiveFrom (calculate text r).1) := by
  have hvalue := evaluate_toRpn text r
  have htrace := getLast?_renderTrimmed_toRpn text
  simp only [runExpression, trace, hvalue, if_true]
  by_cases h : (toRpn (Scanner.ofText text)).getLast? = some .endOfInput
  · rw [if_pos h, if_pos (htrace.2 h), String.append_empty]
  · rw [if_neg h, if_neg fun hl => h (htrace.1 hl)]

theorem runExpression_false (text : String) (r : Reporter) :
    runExpression false text r =
      (runExpression.printed (calculate text r).1, r.receiveFrom (calculate text r).1) :=
  rfl

/-- Line by line, the same errors are reported and the same line ends the run. -/
theorem runLines_eager (r : Reporter) (lines : List (List UInt8)) :
    (runLines true r lines).1 = (runLines false r lines).1 ∧
      (runLines true r lines).2.2 = (runLines false r lines).2.2 := by
  induction lines generalizing r with
  | nil => exact ⟨rfl, rfl⟩
  | cons line rest ih =>
    unfold runLines
    split
    · exact ⟨rfl, rfl⟩
    · next text _ =>
      split
      · exact ih r
      · rw [runExpression_true, runExpression_false]
        exact ih _

/-- Whether reverse Polish notation is collected and printed first or evaluated as it comes, a text
has the same value or error, an error is reported once and a value never, and so the program writes
the same errors and exits with the same code. All that differs is the trace in front of the
output. -/
theorem eager_agrees (text : String) (r : Reporter) :
    (evaluate (toRpn (Scanner.ofText text))).1.mapError .evaluation = (calculate text r).1 ∧
      (∀ rpn, (runExpression rpn text r).2 =
        match (calculate text r).1 with
        | .ok _ => r
        | .error e => r.receive e) ∧
      (runExpression true text r).1 = trace text ++ (runExpression false text r).1 ∧
      (∀ (surroundings : Surroundings) (input : List UInt8) (options : Options),
        let eager := Request.perform surroundings input (.run { options with rpn := true })
        let lazy := Request.perform surroundings input (.run { options with rpn := false })
        eager.exitCode = lazy.exitCode ∧ eager.stderr = lazy.stderr) ∧
      ∀ surroundings input noColor,
        (Request.perform surroundings input (.run ⟨some text, true, noColor⟩)).stdout =
          trace text ++
            (Request.perform surroundings input (.run ⟨some text, false, noColor⟩)).stdout := by
  refine ⟨evaluate_toRpn text r, ?_, ?_, ?_, ?_⟩
  · intro rpn
    have hr : (runExpression rpn text r).2 = r.receiveFrom (calculate text r).1 := by
      cases rpn with
      | false => rw [runExpression_false]
      | true => rw [runExpression_true]
    rw [hr]
    rcases (calculate text r).1 with e | v <;> rfl
  · rw [runExpression_true, runExpression_false]
  · intro surroundings input options
    rcases options with ⟨_ | text, rpn, noColor⟩
    · obtain ⟨hbroken, hr⟩ := runLines_eager
        { policy := .print (!noColor && surroundings.wantsColor) } (inputLines input)
      simp only [Request.perform, hbroken, hr, and_self]
    · simp only [Request.perform, runExpression_true, runExpression_false]
      exact ⟨rfl, trivial⟩
  · intro surroundings input noColor
    simp only [Request.perform, runExpression_true, runExpression_false]

end CommandLine

end Reckon
