import ShaderBinary.Dump.Options

/-!
# When the dump tool is asked not to verify

Only the argument `--no-verify` turns verification off, and only in front of an argument `--`
(`Options.verify_eq_false_iff`). Neither joined short options nor the value of an option can be taken for it.
-/

namespace ShaderBinary
namespace Dump
namespace Options

/-- The options as they are after an argument. -/
def Step.soFar : Step → Partial
  | complete soFar => soFar
  | awaitsOutput soFar => soFar

variable {soFar next : Partial} {step : Step} {argument path : String}

/-! ## Options other than `--no-verify` -/

/-- What is not refused is what is done otherwise. -/
theorem ok_of_guarded {refused : Prop} [Decidable refused] {problem : Problem}
    {done : Except Problem Partial} (h : (if refused then .error problem else done) = .ok next) :
    done = .ok next := by
  split at h
  · cases h
  · exact h

theorem exists_of_bind_eq_ok {α : Type} {outcome : Except Problem Partial}
    {continued : Partial → Except Problem α} {last : α} (h : outcome.bind continued = .ok last) :
    ∃ next, outcome = .ok next ∧ continued next = .ok last := by
  cases outcome with
  | error problem => cases h
  | ok next => exact ⟨next, rfl, h⟩

/-- An argument that is complete in itself does what its option does. -/
theorem soFar_of_map_complete {outcome : Except Problem Partial}
    (h : outcome.map Step.complete = .ok step) : outcome = .ok step.soFar := by
  cases outcome with
  | error problem => cases h
  | ok next =>
      cases h
      rfl

namespace Partial

theorem verify_of_withStrip (h : soFar.withStrip = .ok next) : next.verify = soFar.verify := by
  obtain rfl := Except.ok.inj (ok_of_guarded h)
  rfl

theorem verify_of_withWords (h : soFar.withWords = .ok next) : next.verify = soFar.verify := by
  obtain rfl := Except.ok.inj (ok_of_guarded h)
  rfl

theorem verify_of_withOutput (h : soFar.withOutput path = .ok next) : next.verify = soFar.verify := by
  obtain rfl := Except.ok.inj (ok_of_guarded (ok_of_guarded h))
  rfl

theorem verify_of_withInput (h : soFar.withInput path = .ok next) : next.verify = soFar.verify := by
  obtain rfl := Except.ok.inj (ok_of_guarded (ok_of_guarded h))
  rfl

theorem verify_of_withInputs {paths : List String} (h : paths.foldlM withInput soFar = .ok next) :
    next.verify = soFar.verify := by
  induction paths generalizing soFar with
  | nil =>
      cases h
      rfl
  | cons path later ih =>
      rw [List.foldlM_cons] at h
      obtain ⟨first, hfirst, hlater⟩ := exists_of_bind_eq_ok h
      exact (ih hlater).trans (verify_of_withInput hfirst)

end Partial

theorem verify_of_readShort {chars : List Char} (h : readShort soFar chars = .ok step) :
    step.soFar.verify = soFar.verify := by
  fun_induction readShort soFar chars with
  | case1 soFar =>
      cases h
      rfl
  | case2 soFar later ih =>
      obtain ⟨next, hstrip, hlater⟩ := exists_of_bind_eq_ok h
      exact (ih next hlater).trans (Partial.verify_of_withStrip hstrip)
  | case3 soFar later ih =>
      obtain ⟨next, hwords, hlater⟩ := exists_of_bind_eq_ok h
      exact (ih next hlater).trans (Partial.verify_of_withWords hwords)
  | case4 soFar =>
      cases h
      rfl
  | case5 soFar path => exact Partial.verify_of_withOutput (soFar_of_map_complete h)
  | case6 soFar path => exact Partial.verify_of_withOutput (soFar_of_map_complete h)
  | case7 soFar c later => cases h

/-- Of the long options, only the one without a value that is called so turns verification off. -/
theorem verify_of_readLong {name : String} {rest : List Char}
    (hother : name ≠ "no-verify" ∨ rest ≠ []) (h : readLong soFar name rest = .ok step) :
    step.soFar.verify = soFar.verify := by
  unfold readLong at h
  split at h
  · split at h
    · exact Partial.verify_of_withStrip (soFar_of_map_complete h)
    · simp at hother
    · exact Partial.verify_of_withWords (soFar_of_map_complete h)
    · cases h
      rfl
    · cases h
  · split at h
    · exact Partial.verify_of_withOutput (soFar_of_map_complete h)
    · cases h

/-! ## Arguments -/

theorem readArgument_noVerify (soFar : Partial) :
    readArgument soFar "--no-verify" = soFar.withoutVerify.map .complete :=
  rfl

theorem verify_of_readArgument (hne : argument ≠ "--no-verify")
    (h : readArgument soFar argument = .ok step) : step.soFar.verify = soFar.verify := by
  unfold readArgument at h
  split at h
  · next long hlong =>
    refine verify_of_readLong ?_ h
    by_cases hname : String.ofList (long.takeWhile (· ≠ '=')) = "no-verify"
    · refine .inr fun hrest => hne ?_
      -- Without a value, the name is all that follows the dashes.
      have hlist : long.takeWhile (· ≠ '=') = "no-verify".toList := by
        rw [← hname, String.toList_ofList]
      have hwhole := List.takeWhile_append_dropWhile (p := fun c => decide (c ≠ '=')) (l := long)
      rw [hrest, hlist, List.append_nil] at hwhole
      rw [← String.toList_inj, hlong, ← hwhole]
      rfl
    · exact .inl hname
  · exact verify_of_readShort h
  · exact Partial.verify_of_withInput (soFar_of_map_complete h)

theorem verify_of_withoutVerify (h : soFar.withoutVerify = .ok next) : next.verify = false := by
  unfold Partial.withoutVerify at h
  split at h
  · cases h
    rfl
  · cases h

/-- One argument turns verification off if it is `--no-verify`. -/
theorem verify_eq_false_of_readArgument (h : readArgument soFar argument = .ok step) :
    step.soFar.verify = false ↔ soFar.verify = false ∨ argument = "--no-verify" := by
  by_cases hsame : argument = "--no-verify"
  · subst hsame
    rw [readArgument_noVerify] at h
    simp [verify_of_withoutVerify (soFar_of_map_complete h)]
  · simp [verify_of_readArgument hsame h, hsame]

/-- The value of an option is not an option itself. -/
theorem ne_of_not_isOption {option : String} (hoption : isOption option = true)
    (h : ¬isOption path = true) : path ≠ option := by
  rintro rfl
  exact h hoption

/-- The arguments in front of `--`, of which there is one more. -/
theorem front_cons (hne : argument ≠ "--") (later : List String) :
    (argument :: later).takeWhile (· ≠ "--") = argument :: later.takeWhile (· ≠ "--") :=
  List.takeWhile_cons_of_pos (decide_eq_true hne)

theorem verify_eq_false_of_readAll {arguments : List String} (h : readAll soFar arguments = .ok next) :
    next.verify = false ↔
      soFar.verify = false ∨ "--no-verify" ∈ arguments.takeWhile (· ≠ "--") := by
  fun_induction readAll soFar arguments with
  | case1 soFar =>
      cases h
      simp
  | case2 soFar paths =>
      rw [Partial.verify_of_withInputs h]
      simp
  | case3 => cases h
  | case4 soFar argument hne first later hread ih =>
      rw [ih h, front_cons hne, List.mem_cons, eq_comm (a := "--no-verify"), ← or_assoc]
      exact or_congr_left (verify_eq_false_of_readArgument hread)
  | case5 => cases h
  | case6 => cases h
  | case7 => cases h
  | case8 soFar argument hne first path later hread hvalue second hpath ih =>
      -- The path is read with the option before it, and is neither `--` nor `--no-verify`.
      have hfirst := verify_eq_false_of_readArgument hread
      have hsecond : path ≠ "--no-verify" := ne_of_not_isOption rfl hvalue
      rw [ih h, front_cons hne, front_cons (ne_of_not_isOption rfl hvalue), List.mem_cons,
        List.mem_cons, Partial.verify_of_withOutput hpath]
      simp only [Step.soFar] at hfirst
      rw [hfirst, eq_comm (a := argument), or_assoc, or_iff_right (Ne.symm hsecond)]

/-- Verification is turned off by an argument `--no-verify` in front of `--`, and by nothing else. -/
theorem verify_eq_false_iff {arguments : List String} {options : Options}
    (h : ofArguments arguments = .ok options) :
    options.verify = false ↔ "--no-verify" ∈ arguments.takeWhile (· ≠ "--") := by
  unfold ofArguments at h
  cases hread : readAll ⟨none, false, true, false, none⟩ arguments with
  | error problem =>
      rw [hread] at h
      cases h
  | ok last =>
      rw [hread] at h
      have hverify := verify_eq_false_of_readAll hread
      rcases last with ⟨_ | input, strip, verify, words, output⟩
      · cases h
      · cases h
        simpa using hverify

end Options
end Dump
end ShaderBinary
