import Mathlib.Data.List.Chain
import TextGrammar.Proofs.Grammar.Meaning
import TextGrammar.Proofs.Grammar.Reading

/-!
# Templates

Which texts are templates, and what they spell.

A template is cut into segments: brackets, and the literal text between them. A
literal segment is maximal if no other one stands next to it. There is at most
one such cut, because a literal segment cannot hold a bracket that opens and a
bracket is read to the end, so reading goes from left to right and never back.

## Main definitions

* `Segment`: A literal or a bracket, with what it spells.
* `Segmentation`: The segments of a text.

## Theorems

* `Token.literalText_sound`, `Token.literalText_append`: Literal text is read as far
  as it goes.
* `Reader.template?_eq_ok_iff`: The pieces that are read are those of the segments.
* `Grammar.readContentChars_eq_ok_iff`: Templates are the texts with segments that mean
  something.
* `Grammar.readContent_segments`: The same, with the form of the result and of the
  error.
-/

namespace TextGrammar

open Spelling

/-- A piece of literal text. -/
def ItemForm.IsText (form : ItemForm) : Prop := ∃ s, form = .text s

/-- A piece of literal text. -/
def Item.IsText (item : Item) : Prop := ∃ s, item = .text s

/-- A part of a template with what it spells: literal text, or a bracket with all that
    stands in it. -/
inductive Segment : List Char → ItemForm → Prop
  | literal (raw : List Char) (text : String) (h : Literal raw text.toList) (hne : raw ≠ []) :
      Segment raw (.text text)
  | bracketed (body : List Char) (form : ItemForm) (h : Bracket form body []) :
      Segment ('[' :: body) form

/-- Segments that make up a text. Literal text is not cut in two. -/
structure Segmentation (t : List Char) (segments : List (List Char × ItemForm)) : Prop where
  joined : segments.flatMap Prod.fst = t
  each : ∀ s ∈ segments, Segment s.1 s.2
  maximal : segments.IsChain fun s next => ¬ (s.2.IsText ∧ next.2.IsText)

/-- No literal text goes on with these characters. -/
def EndsLiteral (rest : List Char) : Prop := ∀ c ∈ rest.head?, c = '['

namespace Token

/-- Literal text is read up to its end, to a bracket, or to a last backslash that
    escapes nothing. -/
theorem literalText_sound (cs : List Char) :
    ∃ raw, Literal raw (literalText cs).1 ∧ cs = raw ++ (literalText cs).2 ∧
      (EndsLiteral (literalText cs).2 ∨ (literalText cs).2 = ['\\']) := by
  fun_induction literalText cs with
  | case1 => exact ⟨[], .nil, rfl, Or.inl nofun⟩
  | case2 rest =>
      refine ⟨[], .nil, rfl, Or.inl ?_⟩
      intro c hc
      exact (Option.some.inj hc).symm
  | case3 c rest text after hread ih =>
      rw [hread] at ih
      rcases ih with ⟨raw, hraw, hsplit, hend⟩
      refine ⟨'\\' :: c :: raw, .escaped c raw text trivial hraw, ?_, hend⟩
      rw [hsplit]
      rfl
  | case4 => exact ⟨[], .nil, rfl, Or.inr rfl⟩
  | case5 c rest hbracket hescaped hlast text after hread ih =>
      rw [hread] at ih
      rcases ih with ⟨raw, hraw, hsplit, hend⟩
      -- A backslash here would escape what follows it, or be the last character.
      have hplain : c ≠ '[' ∧ c ≠ '\\' := by
        refine ⟨hbracket, fun hc => ?_⟩
        cases rest with
        | nil => exact hlast hc rfl
        | cons d rest => exact hescaped d rest hc rfl
      refine ⟨c :: raw, .plain c raw text hplain hraw, ?_, hend⟩
      rw [hsplit]
      rfl

theorem literalText_append {raw text rest : List Char} (h : Literal raw text)
    (hrest : EndsLiteral rest) : literalText (raw ++ rest) = (text, rest) := by
  induction h with
  | nil =>
      cases rest with
      | nil => rfl
      | cons c rest =>
          have hc : c = '[' := hrest c rfl
          subst hc
          rfl
  | plain c raw text hc h ih =>
      rw [List.cons_append, literalText, ih]
      · exact hc.1
      · exact fun _ _ hescape _ => hc.2 hescape
      · exact fun hescape _ => hc.2 hescape
  | escaped c raw text hc h ih =>
      rw [List.cons_append, List.cons_append, literalText, ih]

end Token

theorem Segment.ne_nil {raw : List Char} {form : ItemForm} (h : Segment raw form) : raw ≠ [] := by
  cases h with
  | literal _ text h hne => exact hne
  | bracketed body form h => exact List.cons_ne_nil _ _

/-- A segment that is no literal opens a bracket. -/
theorem Segment.endsLiteral {raw : List Char} {form : ItemForm} (h : Segment raw form)
    (hform : ¬ form.IsText) (rest : List Char) : EndsLiteral (raw ++ rest) := by
  cases h with
  | literal _ text h hne => exact absurd ⟨text, rfl⟩ hform
  | bracketed body form h =>
      intro c hc
      exact (Option.some.inj hc).symm

/-- A literal opens no bracket. -/
theorem Spelling.Escaped.not_endsLiteral {raw text : List Char} (h : Literal raw text)
    (hne : raw ≠ []) (rest : List Char) : ¬ EndsLiteral (raw ++ rest) := by
  intro hends
  cases h with
  | nil => exact hne rfl
  | plain c raw text hc h => exact hc.1 (hends c rfl)
  | escaped c raw text hc h => exact absurd (hends '\\' rfl) (by decide)

theorem Segment.not_isText {raw rest : List Char} {form : ItemForm} (h : Segment raw form)
    (hends : EndsLiteral (raw ++ rest)) : ¬ form.IsText := by
  cases h with
  | literal _ text h hne => exact absurd hends (h.not_endsLiteral hne rest)
  | bracketed body form h =>
      rintro ⟨s, rfl⟩
      cases h

namespace Segmentation

theorem nil : Segmentation [] [] := ⟨rfl, nofun, .nil⟩

/-- A segment in front of others. Behind a literal comes the end or a bracket. -/
theorem cons {raw rest : List Char} {form : ItemForm} {segments : List (List Char × ItemForm)}
    (hfirst : Segment raw form) (hrest : Segmentation rest segments)
    (hends : form.IsText → EndsLiteral rest) :
    Segmentation (raw ++ rest) ((raw, form) :: segments) := by
  refine ⟨?_, ?_, List.isChain_cons.2 ⟨?_, hrest.maximal⟩⟩
  · rw [List.flatMap_cons, hrest.joined]
  · intro s hs
    rcases List.mem_cons.1 hs with rfl | hs
    · exact hfirst
    · exact hrest.each s hs
  · rintro ⟨raw', form'⟩ hnext ⟨htext, htext'⟩
    -- The next segment would be a literal that opens a bracket.
    have hmem : (raw', form') ∈ segments := List.mem_of_mem_head? hnext
    have hjoined : ∃ more, rest = raw' ++ more := by
      rw [← hrest.joined]
      cases segments with
      | nil => exact absurd hnext nofun
      | cons s segments =>
          cases hnext
          exact ⟨_, List.flatMap_cons⟩
    rcases hjoined with ⟨more, rfl⟩
    exact (hrest.each _ hmem).not_isText (hends htext) htext'

theorem of_cons {t raw : List Char} {form : ItemForm} {segments : List (List Char × ItemForm)}
    (h : Segmentation t ((raw, form) :: segments)) :
    ∃ rest, t = raw ++ rest ∧ Segment raw form ∧ Segmentation rest segments ∧
      (form.IsText → EndsLiteral rest) := by
  have hchain := List.isChain_cons.1 h.maximal
  refine ⟨segments.flatMap Prod.fst, ?_, h.each (raw, form) List.mem_cons_self,
    ⟨rfl, fun s hs => h.each s (List.mem_cons_of_mem _ hs), hchain.2⟩, ?_⟩
  · rw [← h.joined, List.flatMap_cons]
  · intro htext
    cases segments with
    | nil => exact nofun
    | cons next segments =>
        have hnext : Segment next.1 next.2 :=
          h.each next (List.mem_cons_of_mem _ List.mem_cons_self)
        rw [List.flatMap_cons]
        exact hnext.endsLiteral (fun htext' => hchain.1 next rfl ⟨htext, htext'⟩) _

theorem length_le {t : List Char} {segments : List (List Char × ItemForm)}
    (h : Segmentation t segments) : segments.length ≤ t.length := by
  induction segments generalizing t with
  | nil => exact Nat.zero_le _
  | cons s segments ih =>
      rcases h.of_cons with ⟨rest, rfl, hfirst, hrest, _⟩
      have hpos : 0 < s.1.length := List.length_pos_iff.2 hfirst.ne_nil
      have := ih hrest
      rw [List.length_cons, List.length_append]
      omega

end Segmentation

namespace Reader

theorem templateFrom_bracket {n : Nat} {cs : List Char} {form : ItemForm} {c : Cursor}
    (h : bracket ⟨'[' :: cs, cs⟩ = .ok (form, c)) :
    templateFrom (n + 1) ('[' :: cs) = (templateFrom n c.rest).map (form :: ·) := by
  rw [templateFrom, h]

theorem templateFrom_literal {n : Nat} {cs text rest : List Char} (hcs : ¬ EndsLiteral cs)
    (h : Token.literalText cs = (text, rest)) (htext : text ≠ []) :
    templateFrom (n + 1) cs = (templateFrom n rest).map (.text (String.ofList text) :: ·) := by
  rw [templateFrom, h]
  · cases text with
    | nil => exact absurd rfl htext
    | cons c text => rfl
  · rintro rfl
    exact hcs nofun
  · rintro more rfl
    refine hcs fun c hc => ?_
    exact (Option.some.inj hc).symm

/-- A backslash with nothing behind it is no template. -/
theorem templateFrom_backslash (n : Nat) (forms : List ItemForm) :
    templateFrom n ['\\'] ≠ .ok forms := by
  cases n with
  | zero => exact nofun
  | succ n => exact nofun

theorem map_cons_eq_ok_iff {ε α : Type} (a : α) (x : Except ε (List α)) (as : List α) :
    x.map (a :: ·) = .ok as ↔ ∃ more, x = .ok more ∧ as = a :: more := by
  cases x with
  | error e => exact ⟨nofun, fun ⟨_, h, _⟩ => absurd h nofun⟩
  | ok more =>
      constructor
      · intro h
        cases h
        exact ⟨more, rfl, rfl⟩
      · rintro ⟨_, h, rfl⟩
        cases h
        rfl

theorem sound_templateFrom (n : Nat) (cs : List Char) (forms : List ItemForm)
    (h : templateFrom n cs = .ok forms) :
    ∃ segments, Segmentation cs segments ∧ segments.map Prod.snd = forms := by
  fun_induction templateFrom n cs generalizing forms with
  | case1 =>
      cases h
      exact ⟨[], .nil, rfl⟩
  | case2 => exact absurd h nofun
  | case3 => exact absurd h nofun
  | case4 n rest form c hread ih =>
      rcases (map_cons_eq_ok_iff _ _ _).1 h with ⟨more, hmore, rfl⟩
      rcases ih more hmore with ⟨segments, hsegments, rfl⟩
      -- A segment is the bracket alone, without the rest of the template.
      have hbracket : Bracket form rest ([] ++ c.rest) := sound_bracket _ _ _ hread
      rcases hbracket.cut with ⟨body, rfl, hbody⟩
      refine ⟨('[' :: body, form) :: segments,
        .cons (.bracketed body form hbody) hsegments ?_, rfl⟩
      rintro ⟨s, rfl⟩
      cases hbody
  | case5 => exact absurd h nofun
  | case6 n cs hcs hbracket text rest htext hread ih =>
      rcases (map_cons_eq_ok_iff _ _ _).1 h with ⟨more, hmore, rfl⟩
      rcases ih more hmore with ⟨segments, hsegments, rfl⟩
      have hliteral := Token.literalText_sound cs
      rw [hread] at hliteral
      rcases hliteral with ⟨raw, hraw, rfl, hends | hlast⟩
      · have hne : raw ≠ [] := by
          rintro rfl
          cases hraw
          exact htext rfl
        refine ⟨(raw, .text (String.ofList text)) :: segments, ?_, rfl⟩
        exact .cons (.literal raw _ (by rwa [String.toList_ofList]) hne) hsegments fun _ => hends
      -- The reader went on from a backslash at the end, which does not come to anything.
      · rw [show rest = ['\\'] from hlast] at hmore
        exact absurd hmore (templateFrom_backslash n _)

theorem complete_templateFrom {segments : List (List Char × ItemForm)} {cs : List Char}
    (h : Segmentation cs segments) (n : Nat) (hn : segments.length ≤ n) :
    templateFrom n cs = .ok (segments.map Prod.snd) := by
  induction segments generalizing cs n with
  | nil =>
      rw [← h.joined]
      exact templateFrom.eq_1 n
  | cons s segments ih =>
      rcases s with ⟨raw, form⟩
      rcases h.of_cons with ⟨rest, rfl, hfirst, hrest, hends⟩
      cases n with
      | zero => exact absurd hn (Nat.not_succ_le_zero _)
      | succ n =>
          have hmore := ih hrest n (Nat.le_of_succ_le_succ hn)
          cases hfirst with
          | literal _ text hraw hne =>
              have htext : text.toList ≠ [] := by
                intro htext
                rw [htext] at hraw
                cases hraw
                exact hne rfl
              have hread := Token.literalText_append hraw (hends ⟨text, rfl⟩)
              rw [templateFrom_literal (hraw.not_endsLiteral hne rest) hread htext, hmore,
                String.ofList_toList]
              rfl
          | bracketed body _ hbody =>
              -- The rest of the template is put back behind the bracket.
              have hbracket : Bracket form (body ++ rest) rest := hbody.extend rest
              rcases complete_bracket ⟨'[' :: (body ++ rest), body ++ rest⟩ form rest hbracket
                trivial with ⟨d, hd, rfl⟩
              rw [List.cons_append, templateFrom_bracket hd, hmore]
              rfl

/-- The pieces of a template are those that its segments spell. -/
theorem template?_eq_ok_iff (cs : List Char) (forms : List ItemForm) :
    template? cs = .ok forms ↔
      ∃ segments, Segmentation cs segments ∧ segments.map Prod.snd = forms := by
  constructor
  · exact sound_templateFrom _ cs forms
  · rintro ⟨segments, hsegments, rfl⟩
    exact complete_templateFrom hsegments _ (hsegments.length_le.trans (Nat.le_succ _))

-- White space is text outside of brackets only, and an escaped bracket opens nothing.
example : (template? ['\\', '[', ' ', '[', ' ', 'a', ' ', ']']).toOption =
    some [.text "[ ", .reference ⟨"a", none⟩ [] []] := by
  decide +kernel

end Reader

namespace Grammar

theorem located_eq_ok_iff {α : Type} (place : Place) (part : RulePart) (text : List Char)
    (result : Except (List Char) α) (a : α) :
    located place part text result = .ok a ↔ result = .ok a := by
  cases result with
  | error rest => exact ⟨nofun, nofun⟩
  | ok b =>
      constructor
      · intro h
        cases h
        rfl
      · intro h
        cases h
        rfl

/-- A text is a template if it has segments that all mean something, and the template
    is what they mean. -/
theorem readContentChars_eq_ok_iff (text : List Char) (place : Place) (content : Content) :
    readContentChars text place = .ok content ↔
      ∃ segments, Segmentation text segments ∧
        List.Forall₂ (fun s item => s.2.StandsFor item) segments content := by
  unfold readContentChars
  simp only [bind_eq_ok_iff, located_eq_ok_iff, Reader.template?_eq_ok_iff, mapM_eq_ok_iff,
    itemOf_eq_ok_iff]
  constructor
  · rintro ⟨_, ⟨segments, hsegments, rfl⟩, hmeaning⟩
    exact ⟨segments, hsegments, List.forall₂_map_left_iff.1 hmeaning⟩
  · rintro ⟨segments, hsegments, hmeaning⟩
    exact ⟨_, ⟨segments, hsegments, rfl⟩, List.forall₂_map_left_iff.2 hmeaning⟩

/-- What is wrong with a text that is no template is that it cannot be read on, or that
    a filter in one of its segments is unfit. -/
theorem readContentChars_eq_error {text : List Char} {place : Place} {e : LoadError}
    (h : readContentChars text place = .error e) :
    ∃ fault, e = .grammar ⟨fault, place.file, place.line⟩ ∧
      (((∀ segments, ¬ Segmentation text segments) ∧
          ∃ column, fault = .unexpectedInput .content column (String.ofList text)) ∨
        ∃ segments, Segmentation text segments ∧
          ∃ s ∈ segments, ∃ w ∈ s.2.watchers, ∃ unfit, w.Unfit unfit ∧ fault = .filter unfit) := by
  rcases (bind_eq_error_iff _ _ _).1 h with h | ⟨forms, hforms, h⟩
  · unfold located at h
    split at h
    · exact absurd h nofun
    · rename_i rest hread
      cases h
      refine ⟨_, rfl, Or.inl ⟨fun segments hsegments => ?_, _, rfl⟩⟩
      have hok := (Reader.template?_eq_ok_iff text _).2 ⟨segments, hsegments, rfl⟩
      exact absurd (hread.symm.trans hok) nofun
  · rw [located_eq_ok_iff, Reader.template?_eq_ok_iff] at hforms
    rcases hforms with ⟨segments, hsegments, rfl⟩
    rcases exists_of_mapM_eq_error h with ⟨form, hform, he⟩
    rcases List.mem_map.1 hform with ⟨s, hs, rfl⟩
    rcases unfit_of_itemOf he with ⟨w, hw, unfit, hunfit, rfl⟩
    exact ⟨_, rfl, Or.inr ⟨segments, hsegments, s, hs, w, hw, unfit, hunfit, rfl⟩⟩

/-- What is wrong with a text that is no template is where it cannot be read on, or a
    filter. -/
theorem fault_of_readContentChars {text : List Char} {place : Place} {e : LoadError}
    (h : readContentChars text place = .error e) :
    ∃ fault, e = .grammar ⟨fault, place.file, place.line⟩ ∧
      ((∃ column, fault = .unexpectedInput .content column (String.ofList text)) ∨
        ∃ unfit, fault = .filter unfit) := by
  rcases readContentChars_eq_error h with ⟨fault, he, ⟨_, hfault⟩ | ⟨_, _, _, _, _, _, hfault⟩⟩
  · exact ⟨fault, he, Or.inl hfault⟩
  · rcases hfault with ⟨unfit, _, hfault⟩
    exact ⟨fault, he, Or.inr ⟨unfit, hfault⟩⟩

end Grammar

theorem ItemForm.StandsFor.isText_iff {form : ItemForm} {item : Item} (h : form.StandsFor item) :
    item.IsText ↔ form.IsText := by
  cases h with
  | text s => exact ⟨fun _ => ⟨s, rfl⟩, fun _ => ⟨s, rfl⟩⟩
  | lookup key ws chain h => exact ⟨nofun, nofun⟩
  | reference tag labels ws chain h => exact ⟨nofun, nofun⟩

namespace Segmentation

variable {t : List Char} {segments : List (List Char × ItemForm)} {content : Content}

/-- No literal text of a template is empty. -/
theorem empty_not_mem (h : Segmentation t segments)
    (hmeaning : List.Forall₂ (fun s item => s.2.StandsFor item) segments content) :
    .text "" ∉ content := by
  induction hmeaning generalizing t with
  | nil => exact List.not_mem_nil
  | cons hfirst hmore ih =>
      rename_i s item segments content
      rcases s with ⟨raw, form⟩
      rcases h.of_cons with ⟨rest, _, hsegment, hrest, _⟩
      intro hmem
      rcases List.mem_cons.1 hmem with rfl | hmem
      · cases hfirst
        cases hsegment with
        | literal _ _ hraw hne =>
            cases hraw
            exact hne rfl
        | bracketed body _ hbody => cases hbody
      · exact ih hrest hmem

/-- No two literal texts of a template stand next to each other. -/
theorem isChain_content (h : Segmentation t segments)
    (hmeaning : List.Forall₂ (fun s item => s.2.StandsFor item) segments content) :
    content.IsChain fun a b => ¬ (a.IsText ∧ b.IsText) := by
  have hchain := h.maximal
  clear h
  induction hmeaning with
  | nil => exact .nil
  | cons hfirst hmore ih =>
      rcases List.isChain_cons.1 hchain with ⟨hnext, hrest⟩
      refine List.isChain_cons.2 ⟨?_, ih hrest⟩
      cases hmore with
      | nil => exact nofun
      | cons hsecond hmore =>
          intro b hb
          cases hb
          rw [hfirst.isText_iff, hsecond.isText_iff]
          exact hnext _ rfl

end Segmentation

namespace Grammar

/-- Templates are the texts that have segments, brackets and the literal text between
    them, in which all filters are known and get arguments that they take. Reading
    gives one piece for each segment. Literal text is then never empty nor cut in two,
    and a text that is no template is a fault with its place. -/
theorem readContent_segments (text : String) (place : Place) :
    (∀ content, readContent text place = .ok content ↔
      ∃ segments, Segmentation text.toList segments ∧
        List.Forall₂ (fun s item => s.2.StandsFor item) segments content) ∧
    (∀ content, readContent text place = .ok content →
      .text "" ∉ content ∧ content.IsChain fun a b => ¬ (a.IsText ∧ b.IsText)) ∧
    (∀ e, readContent text place = .error e →
      ∃ fault, e = .grammar ⟨fault, place.file, place.line⟩ ∧
        ((∃ column, fault = .unexpectedInput .content column text) ∨
          ∃ unfit, fault = .filter unfit)) := by
  refine ⟨readContentChars_eq_ok_iff text.toList place, ?_, ?_⟩
  · intro content h
    rcases (readContentChars_eq_ok_iff _ _ _).1 h with ⟨segments, hsegments, hmeaning⟩
    exact ⟨hsegments.empty_not_mem hmeaning, hsegments.isChain_content hmeaning⟩
  · intro e h
    rcases fault_of_readContentChars h with ⟨fault, he, hfault⟩
    rw [String.ofList_toList] at hfault
    exact ⟨fault, he, hfault⟩

end Grammar

end TextGrammar
