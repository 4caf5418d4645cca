import TextGrammar.Proofs.Grammar.Header

/-!
# Soundness of Headers

That a header spells the tag and the options as which it is read.

Whatever a reader of literals takes off the front of a text is a literal, and its
value need not be looked at again. So the options of a header that was read have the
spelling of their kinds, and headers are the texts that are read as such.

## Theorems

* `Token.integer?_sound`, `Token.number?_sound`: What is read as a literal is one.
* `Reader.sound_option`: What is read as an option spells it.
* `Reader.header?_eq_ok_iff`: Headers are read, and nothing else is.
-/

namespace TextGrammar

open Spelling

namespace Token

/-- A sign that is read is one, and it is taken off the front. -/
theorem sign_sound (cs : List Char) :
    (∃ negative, IsSign (sign cs).1 negative) ∧ cs = (sign cs).1 ++ (sign cs).2 := by
  unfold sign
  split
  · exact ⟨⟨false, .plus⟩, rfl⟩
  · exact ⟨⟨true, .minus⟩, rfl⟩
  · exact ⟨⟨false, .omitted⟩, rfl⟩

theorem digits?_sound {cs ds rest : List Char} (h : digits? cs = some (ds, rest)) :
    IsDigits ds ∧ cs = ds ++ rest := by
  unfold digits? at h
  split at h
  · exact absurd h nofun
  · rename_i hne
    cases h
    refine ⟨⟨fun hnil => hne (List.isEmpty_iff.2 hnil), fun c hc => ?_⟩, ?_⟩
    · exact List.mem_takeWhile_imp hc
    · exact List.takeWhile_append_dropWhile.symm

theorem integer?_sound {cs literal rest : List Char} (h : integer? cs = some (literal, rest)) :
    (∃ i, IsInteger literal i) ∧ cs = literal ++ rest := by
  rcases sign_sound cs with ⟨⟨negative, hsign⟩, hcs⟩
  rcases Option.map_eq_some_iff.1 h with ⟨⟨ds, after⟩, hread, hliteral⟩
  rcases digits?_sound hread with ⟨hdigits, hrest⟩
  cases hliteral
  refine ⟨⟨_, .intro _ ds negative hsign hdigits⟩, ?_⟩
  rw [List.append_assoc, ← hrest]
  exact hcs

theorem mantissa?_sound {cs m rest : List Char} (h : mantissa? cs = some (m, rest)) :
    (∃ whole fraction, IsMantissa m whole fraction) ∧ cs = m ++ rest := by
  have hcs : cs.takeWhile Char.isDigit ++ cs.dropWhile Char.isDigit = cs :=
    List.takeWhile_append_dropWhile
  have hwhole : ∀ c ∈ cs.takeWhile Char.isDigit, c.isDigit = true :=
    fun c hc => List.mem_takeWhile_imp hc
  unfold mantissa? at h
  dsimp only at h
  split at h
  · rename_i behind hbehind
    have hpoint : behind.takeWhile Char.isDigit ++ behind.dropWhile Char.isDigit = behind :=
      List.takeWhile_append_dropWhile
    split at h
    · exact absurd h nofun
    · rename_i hne
      cases h
      refine ⟨⟨_, _, .pointed _ _ hwhole (fun c hc => List.mem_takeWhile_imp hc) ?_⟩, ?_⟩
      · rw [Bool.and_eq_true, List.isEmpty_iff, List.isEmpty_iff] at hne
        exact not_and_or.1 hne
      · rw [List.append_assoc, List.cons_append, hpoint, ← hbehind, hcs]
  · split at h
    · exact absurd h nofun
    · rename_i hne
      cases h
      refine ⟨⟨_, [], .plain _ ⟨fun hnil => hne (List.isEmpty_iff.2 hnil), hwhole⟩⟩, hcs.symm⟩

theorem exponent_sound (cs : List Char) :
    (∃ power, IsExponent (exponent cs).1 power) ∧ cs = (exponent cs).1 ++ (exponent cs).2 := by
  unfold exponent
  split
  · rename_i e behind
    split
    · rename_i hletter
      split
      · rename_i literal after hread
        rcases integer?_sound hread with ⟨⟨power, hliteral⟩, rfl⟩
        rw [Bool.or_eq_true, beq_iff_eq, beq_iff_eq] at hletter
        exact ⟨⟨power, .given e literal power hletter hliteral⟩, rfl⟩
      · exact ⟨⟨0, .omitted⟩, rfl⟩
    · exact ⟨⟨0, .omitted⟩, rfl⟩
  · exact ⟨⟨0, .omitted⟩, rfl⟩

theorem number?_sound {cs literal rest : List Char} (h : number? cs = some (literal, rest)) :
    (∃ x, IsNumber literal x) ∧ cs = literal ++ rest := by
  rcases sign_sound cs with ⟨⟨negative, hsign⟩, hcs⟩
  rcases Option.map_eq_some_iff.1 h with ⟨⟨m, after⟩, hread, hliteral⟩
  rcases mantissa?_sound hread with ⟨⟨whole, fraction, hmantissa⟩, hafter⟩
  rcases exponent_sound after with ⟨⟨power, hexponent⟩, hrest⟩
  have hpair : ((sign cs).1 ++ m ++ (exponent after).1, (exponent after).2) = (literal, rest) :=
    hliteral
  rcases Prod.mk.inj hpair with ⟨rfl, rfl⟩
  rw [List.append_assoc]
  refine ⟨⟨_, .intro _ m whole fraction _ negative power hsign hmantissa hexponent⟩, ?_⟩
  rw [List.append_assoc, List.append_assoc, ← hrest, ← hafter]
  exact hcs

end Token

namespace Reader

/-- What a sound reader of literals takes behind white space is spelled there. -/
theorem literal_of_token {read? : List Char → Option (List Char × List Char)}
    {P : List Char → Prop}
    (hsound : ∀ cs literal rest, read? cs = some (literal, rest) → P literal ∧ cs = literal ++ rest)
    {c d : Cursor} {literal : List Char} (h : token read? c = .ok (literal, d)) :
    P literal ∧ Spaced literal c.rest d.rest := by
  rcases hsound _ _ _ ((token_eq_ok _ _ _ _).1 h).1 with ⟨hliteral, hahead⟩
  refine ⟨hliteral, c.rest.takeWhile Token.isIgnored, fun x hx => List.mem_takeWhile_imp hx, ?_⟩
  rw [← hahead]
  exact List.takeWhile_append_dropWhile.symm

/-- What is read as a field has its equals sign, and a value behind it. -/
theorem mark_of_field {α : Type} {value : Reader α} {make : α → OptionForm} {c d : Cursor}
    {form : OptionForm}
    (h : (do mark '='; return make (← value) : Reader OptionForm) c = .ok (form, d)) :
    ∃ a middle, Mark '=' c.rest middle.rest ∧ value middle = .ok (a, d) ∧ form = make a := by
  rcases (bind_eq_ok _ _ _ _ _).1 h with ⟨_, middle, hmark, h⟩
  rcases (bind_eq_ok _ _ _ _ _).1 h with ⟨a, last, hvalue, h⟩
  rcases (pure_eq_ok _ _ _ _).1 h with ⟨rfl, rfl⟩
  exact ⟨a, middle, sound_mark (by decide) _ _ _ hmark, hvalue, rfl⟩

/-- A filter has the word that was read in front of its arguments. -/
theorem word_of_watcherAfter {word name : String} {args : List String} {c d : Cursor}
    (h : watcherAfter word c = .ok (.filter name args, d)) : name = word := by
  unfold watcherAfter at h
  split at h
  · rcases (bind_eq_ok _ _ _ _ _).1 h with ⟨key, _, _, h⟩
    exact absurd ((pure_eq_ok _ _ _ _).1 h).1 nofun
  · rcases (bind_eq_ok _ _ _ _ _).1 h with ⟨given, _, _, h⟩
    cases ((pure_eq_ok _ _ _ _).1 h).1
    rfl

theorem sound_option : Sound option OptionText := by
  intro c form d h
  change (if Spelling.next? c.rest = some '#' then _ else _ : Reader OptionForm) c = _ at h
  split at h
  · rcases (bind_eq_ok _ _ _ _ _).1 h with ⟨label, last, hlabel, h⟩
    rcases (pure_eq_ok _ _ _ _).1 h with ⟨rfl, rfl⟩
    exact .hashtag label _ _ (sound_hashtag _ _ _ hlabel)
  · rcases (bind_eq_ok _ _ _ _ _).1 h with ⟨word, c₁, hword, h⟩
    have hspelled := sound_name _ _ _ hword
    -- The word of a field is followed by its value, and any other word is a watcher's.
    split at h
    · rename_i hfield
      subst hfield
      rcases mark_of_field h with ⟨literal, middle, hmark, hliteral, rfl⟩
      rcases literal_of_token (fun _ _ _ => Token.integer?_sound) hliteral with ⟨⟨i, hi⟩, hspaced⟩
      exact .priority literal i _ _ _ _ hspelled hmark hi hspaced
    split at h
    · rename_i hfield
      subst hfield
      rcases mark_of_field h with ⟨literal, middle, hmark, hliteral, rfl⟩
      rcases literal_of_token (fun _ _ _ => Token.integer?_sound) hliteral with ⟨⟨i, hi⟩, hspaced⟩
      exact .minPriority literal i _ _ _ _ hspelled hmark hi hspaced
    split at h
    · rename_i hfield
      subst hfield
      rcases mark_of_field h with ⟨literal, middle, hmark, hliteral, rfl⟩
      rcases literal_of_token (fun _ _ _ => Token.number?_sound) hliteral with ⟨⟨x, hx⟩, hspaced⟩
      exact .frequency literal x _ _ _ _ hspelled hmark hx hspaced
    split at h
    · rename_i hfield
      subst hfield
      rcases mark_of_field h with ⟨text, middle, hmark, htext, rfl⟩
      exact .guard text _ _ _ _ hspelled hmark (sound_quoted _ _ _ htext)
    · rename_i hpriority hmin hfreq hif
      rcases (bind_eq_ok _ _ _ _ _).1 h with ⟨watcher, last, hwatcher, h⟩
      rcases (pure_eq_ok _ _ _ _).1 h with ⟨rfl, rfl⟩
      refine .watcher watcher _ _ (sound_watcher _ _ _ ((bind_of_ok hword).trans hwatcher)) ?_
      rintro name args rfl
      rw [word_of_watcherAfter hwatcher]
      simp only [NamesField, List.mem_cons, List.not_mem_nil, or_false, not_or]
      exact ⟨hpriority, hmin, hfreq, hif⟩

/-- Headers are read, and nothing else is. -/
theorem header?_eq_ok_iff (cs : List Char) (header : HeaderForm) :
    header? cs = .ok header ↔ HeaderText header cs := by
  refine ⟨fun h => ?_, header?_eq_ok⟩
  unfold header? at h
  split at h
  · exact absurd h nofun
  · rename_i form c hread
    rcases (bind_eq_ok _ _ _ _ _).1 hread with ⟨t, c₁, htag, hread⟩
    rcases (bind_eq_ok _ _ _ _ _).1 hread with ⟨options, c₂, hoptions, hread⟩
    rcases (pure_eq_ok _ _ _ _).1 hread with ⟨rfl, rfl⟩
    split at h
    · rename_i hahead
      cases h
      refine ⟨c₁.rest, c₂.rest, sound_tag _ _ _ htag,
        sound_parenthesized sound_option _ _ _ hoptions, ?_⟩
      exact List.dropWhile_eq_nil_iff.1 hahead
    · exact absurd h nofun

end Reader

end TextGrammar
