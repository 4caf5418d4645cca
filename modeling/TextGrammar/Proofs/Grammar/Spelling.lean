import Mathlib.Data.List.TakeWhile
import TextGrammar.Grammar.Reader

/-!
# Spellings

What the parts of a grammar line look like, without saying how they are read.

A spelling relates a part to the characters that it opens and to those that follow
it. Words, labels, strings and marks may have white space in front. A word or a
label goes on as far as it can, so that two words need white space in between;
all other tokens may stand close together.

A spelling is framed if it does not depend on what follows, as long as something
does. All of these are, so that a bracket may be taken out of its text and put into
another one.

## Main definitions

* `Spelling.Escaped`: Characters, some of them behind a backslash.
* `Spelling.Literal`, `Spelling.QuotedBody`: The text of templates and of strings.
* `Spelling.Word`, `Spelling.Label`, `Spelling.Quoted`, `Spelling.Mark`: Tokens.
* `Spelling.Many`, `Spelling.Listed`, `Spelling.Parenthesized`: Several of a kind.
* `Spelling.TagName`, `Spelling.WatcherText`: Tags and watchers.
* `Spelling.Bracket`: What stands in brackets.
* `Spelling.Framed`: Independence of what follows.

## Theorems

* `Spelling.Bracket.extend`: A bracket is one whatever follows it.
* `Spelling.Bracket.cut`: A bracket without what follows it is one.
-/

namespace TextGrammar

namespace Spelling

/-- A text with its spelling, in which a character is plain or stands behind a
    backslash. Which characters may be plain, and which escaped, is a parameter. -/
inductive Escaped (mayBePlain mayBeEscaped : Char → Prop) : List Char → List Char → Prop
  | nil : Escaped mayBePlain mayBeEscaped [] []
  | plain (c : Char) (raw text : List Char) (hc : mayBePlain c)
      (h : Escaped mayBePlain mayBeEscaped raw text) :
      Escaped mayBePlain mayBeEscaped (c :: raw) (c :: text)
  | escaped (c : Char) (raw text : List Char) (hc : mayBeEscaped c)
      (h : Escaped mayBePlain mayBeEscaped raw text) :
      Escaped mayBePlain mayBeEscaped ('\\' :: c :: raw) (c :: text)

/-- Literal text of a template: anything but opening brackets and backslashes, or any
    character behind a backslash. -/
abbrev Literal : List Char → List Char → Prop :=
  Escaped (fun c => c ≠ '[' ∧ c ≠ '\\') fun _ => True

/-- The inside of a string: anything but quotes, backslashes and line feeds, or
    anything but a line feed behind a backslash. -/
abbrev QuotedBody : List Char → List Char → Prop :=
  Escaped (fun c => c ≠ '"' ∧ c ≠ '\\' ∧ c ≠ '\n') fun c => c ≠ '\n'

/-- Names: letters, digits and underscores, with no digit in front. -/
def IsName : List Char → Prop
  | [] => False
  | first :: more => Token.isNameStart first = true ∧ ∀ c ∈ more, Token.isNameRest c = true

instance : DecidablePred IsName
  | [] => isFalse id
  | first :: more =>
    decidable_of_iff (Token.isNameStart first = true ∧ more.all Token.isNameRest = true)
      (and_congr_right fun _ => List.all_eq_true)

/-- No name goes on with these characters. -/
def EndsName (rest : List Char) : Prop := ∀ c ∈ rest.head?, Token.isNameRest c = false

/-- Characters with white space in front, and what follows them. -/
def Spaced (raw cs rest : List Char) : Prop :=
  ∃ blanks, (∀ c ∈ blanks, Token.isIgnored c = true) ∧ cs = blanks ++ (raw ++ rest)

/-- A name. -/
def Word (w : String) (cs rest : List Char) : Prop :=
  IsName w.toList ∧ EndsName rest ∧ Spaced w.toList cs rest

/-- A name behind a number sign. -/
def Label (label : String) (cs rest : List Char) : Prop :=
  IsName label.toList ∧ EndsName rest ∧ Spaced ('#' :: label.toList) cs rest

/-- A text in double quotes. -/
def Quoted (text : String) (cs rest : List Char) : Prop :=
  ∃ body, QuotedBody body text.toList ∧ Spaced ('"' :: (body ++ ['"'])) cs rest

/-- A single character. -/
def Mark (m : Char) (cs rest : List Char) : Prop := Spaced [m] cs rest

/-- Things one after the other, for a spelling of each. -/
inductive Many {α : Type} (R : α → List Char → List Char → Prop) :
    List α → List Char → List Char → Prop
  | nil (cs : List Char) : Many R [] cs cs
  | cons (x : α) (xs : List α) (cs middle rest : List Char) (hx : R x cs middle)
      (hxs : Many R xs middle rest) : Many R (x :: xs) cs rest

/-- A tag: a name, or two with a dot between. -/
inductive TagName : Tag → List Char → List Char → Prop
  | bare (name : String) (cs rest : List Char) (hname : Word name cs rest) :
      TagName ⟨name, none⟩ cs rest
  | inContext (context name : String) (cs middle behind rest : List Char)
      (hcontext : Word context cs middle) (hdot : Mark '.' middle behind)
      (hname : Word name behind rest) : TagName ⟨name, some context⟩ cs rest

/-- Things with commas between, and a closing parenthesis. -/
inductive Listed {α : Type} (R : α → List Char → List Char → Prop) :
    List α → List Char → List Char → Prop
  | last (x : α) (cs middle rest : List Char) (hx : R x cs middle) (hclose : Mark ')' middle rest) :
      Listed R [x] cs rest
  | more (x : α) (xs : List α) (cs middle behind rest : List Char) (hx : R x cs middle)
      (hcomma : Mark ',' middle behind) (hxs : Listed R xs behind rest) :
      Listed R (x :: xs) cs rest

/-- Things in parentheses, which may be left out if there are none. -/
inductive Parenthesized {α : Type} (R : α → List Char → List Char → Prop) :
    List α → List Char → List Char → Prop
  | omitted (cs : List Char) : Parenthesized R [] cs cs
  | empty (cs middle rest : List Char) (hopen : Mark '(' cs middle)
      (hclose : Mark ')' middle rest) : Parenthesized R [] cs rest
  | listed (xs : List α) (cs middle rest : List Char) (hopen : Mark '(' cs middle)
      (hxs : Listed R xs middle rest) : Parenthesized R xs cs rest

/-- A watcher: the capture word and a key, or any other name with arguments. -/
inductive WatcherText : WatcherForm → List Char → List Char → Prop
  | capture (key : String) (cs middle rest : List Char) (has : Word "as" cs middle)
      (hkey : Word key middle rest) : WatcherText (.capture key) cs rest
  | filter (name : String) (args : List String) (cs middle rest : List Char)
      (hname : Word name cs middle) (hne : name ≠ "as")
      (hargs : Parenthesized Quoted args middle rest) : WatcherText (.filter name args) cs rest

/-- What stands behind an opening bracket, with the closing one: an equals sign, a name
    and watchers, or a tag, labels and watchers. -/
inductive Bracket : ItemForm → List Char → List Char → Prop
  | lookup (key : String) (ws : List WatcherForm) (cs behind middle last rest : List Char)
      (hmark : Mark '=' cs behind) (hkey : Word key behind middle)
      (hws : Many WatcherText ws middle last) (hclose : Mark ']' last rest) :
      Bracket (.lookup key ws) cs rest
  | reference (tag : Tag) (labels : List String) (ws : List WatcherForm)
      (cs behind middle last rest : List Char) (htag : TagName tag cs behind)
      (hlabels : Many Label labels behind middle) (hws : Many WatcherText ws middle last)
      (hclose : Mark ']' last rest) : Bracket (.reference tag labels ws) cs rest

/-- A run of characters of a class is taken as far as it goes. -/
theorem takeWhile_append_of_stop {p : Char → Bool} {run rest : List Char}
    (hrun : ∀ c ∈ run, p c = true) (hstop : ∀ c ∈ rest.head?, p c = false) :
    (run ++ rest).takeWhile p = run ∧ (run ++ rest).dropWhile p = rest := by
  rw [List.takeWhile_append_of_pos hrun, List.dropWhile_append_of_pos hrun]
  cases rest with
  | nil => exact ⟨List.append_nil run, rfl⟩
  | cons c rest =>
      have hc : ¬ p c = true := by
        rw [hstop c rfl]
        exact Bool.false_ne_true
      rw [List.takeWhile_cons_of_neg hc, List.dropWhile_cons_of_neg hc]
      exact ⟨List.append_nil run, rfl⟩

/-- What follows something spelled may be made longer, unless nothing follows at all,
    and shorter again. -/
structure Framed {α : Type} (R : α → List Char → List Char → Prop) : Prop where
  extend (x : α) (cs rest more : List Char) (h : R x cs rest) (hrest : rest ≠ []) :
    cs ≠ [] ∧ R x (cs ++ more) (rest ++ more)
  cut (x : α) (cs rest more : List Char) (h : R x cs (rest ++ more)) :
    ∃ front, cs = front ++ more ∧ R x front rest

theorem EndsName.extend {rest : List Char} (h : EndsName rest) (hrest : rest ≠ [])
    (more : List Char) : EndsName (rest ++ more) := by
  cases rest with
  | nil => exact absurd rfl hrest
  | cons c rest => exact h

theorem EndsName.cut {rest more : List Char} (h : EndsName (rest ++ more)) : EndsName rest := by
  cases rest with
  | nil => exact nofun
  | cons c rest => exact h

theorem Spaced.extend {raw cs rest : List Char} (h : Spaced raw cs rest) (more : List Char) :
    Spaced raw (cs ++ more) (rest ++ more) := by
  rcases h with ⟨blanks, hblanks, rfl⟩
  exact ⟨blanks, hblanks, by rw [List.append_assoc, List.append_assoc]⟩

theorem Spaced.cut {raw cs rest more : List Char} (h : Spaced raw cs (rest ++ more)) :
    ∃ front, cs = front ++ more ∧ Spaced raw front rest := by
  rcases h with ⟨blanks, hblanks, rfl⟩
  exact ⟨blanks ++ (raw ++ rest), by rw [List.append_assoc, List.append_assoc],
    blanks, hblanks, rfl⟩

theorem Spaced.ne_nil {raw cs rest : List Char} (h : Spaced raw cs rest)
    (hne : raw ≠ [] ∨ rest ≠ []) : cs ≠ [] := by
  rcases h with ⟨blanks, _, rfl⟩
  intro hnil
  have hnil := (List.append_eq_nil_iff.1 (List.append_eq_nil_iff.1 hnil).2)
  rcases hne with hne | hne
  · exact hne hnil.1
  · exact hne hnil.2

theorem framed_mark (m : Char) : Framed fun _ : Unit => Mark m where
  extend _ _ _ more h hrest := ⟨h.ne_nil (Or.inr hrest), Spaced.extend h more⟩
  cut _ _ _ _ h := Spaced.cut h

theorem framed_word : Framed Word where
  extend _ _ _ more h hrest :=
    ⟨h.2.2.ne_nil (Or.inr hrest), h.1, h.2.1.extend hrest more, h.2.2.extend more⟩
  cut _ _ _ _ h := by
    rcases h with ⟨hname, hends, hspaced⟩
    rcases hspaced.cut with ⟨front, rfl, hfront⟩
    exact ⟨front, rfl, hname, hends.cut, hfront⟩

theorem framed_label : Framed Label where
  extend _ _ _ more h hrest :=
    ⟨h.2.2.ne_nil (Or.inr hrest), h.1, h.2.1.extend hrest more, h.2.2.extend more⟩
  cut _ _ _ _ h := by
    rcases h with ⟨hname, hends, hspaced⟩
    rcases hspaced.cut with ⟨front, rfl, hfront⟩
    exact ⟨front, rfl, hname, hends.cut, hfront⟩

theorem framed_quoted : Framed Quoted where
  extend _ _ _ more h hrest := by
    rcases h with ⟨body, hbody, hspaced⟩
    exact ⟨hspaced.ne_nil (Or.inr hrest), body, hbody, hspaced.extend more⟩
  cut _ _ _ _ h := by
    rcases h with ⟨body, hbody, hspaced⟩
    rcases hspaced.cut with ⟨front, rfl, hfront⟩
    exact ⟨front, rfl, body, hbody, hfront⟩

section Lists

variable {α : Type} {R : α → List Char → List Char → Prop}

theorem Framed.many (hR : Framed R) : Framed (Many R) where
  extend xs cs rest more h hrest := by
    induction h with
    | nil cs => exact ⟨hrest, .nil _⟩
    | cons x xs cs middle rest hx hxs ih =>
        -- What follows this thing are the others, so they are made longer first.
        rcases ih hrest with ⟨hmiddle, hxs'⟩
        rcases hR.extend x cs middle more hx hmiddle with ⟨hcs, hx'⟩
        exact ⟨hcs, .cons x xs _ _ _ hx' hxs'⟩
  cut xs cs rest more h := by
    -- The induction is on the things, so what follows them must be a variable.
    generalize hwhole : rest ++ more = whole at h
    induction h with
    | nil cs => exact ⟨rest, hwhole.symm, .nil rest⟩
    | cons x xs cs middle whole hx hxs ih =>
        rcases ih hwhole with ⟨middle, rfl, hxs'⟩
        rcases hR.cut x cs middle more hx with ⟨front, rfl, hx'⟩
        exact ⟨front, rfl, .cons x xs _ _ _ hx' hxs'⟩

theorem Framed.listed (hR : Framed R) : Framed (Listed R) where
  extend xs cs rest more h hrest := by
    induction h with
    | last x cs middle rest hx hclose =>
        rcases (framed_mark ')').extend () middle rest more hclose hrest with ⟨hmiddle, hclose'⟩
        rcases hR.extend x cs middle more hx hmiddle with ⟨hcs, hx'⟩
        exact ⟨hcs, .last x _ _ _ hx' hclose'⟩
    | more x xs cs middle behind rest hx hcomma hxs ih =>
        rcases ih hrest with ⟨hbehind, hxs'⟩
        rcases (framed_mark ',').extend () middle behind more hcomma hbehind with
          ⟨hmiddle, hcomma'⟩
        rcases hR.extend x cs middle more hx hmiddle with ⟨hcs, hx'⟩
        exact ⟨hcs, .more x xs _ _ _ _ hx' hcomma' hxs'⟩
  cut xs cs rest more h := by
    -- The induction is on the listing of the whole text, whose end must be a variable.
    generalize hwhole : rest ++ more = whole at h
    induction h with
    | last x cs middle whole hx hclose =>
        subst hwhole
        rcases (framed_mark ')').cut () middle rest more hclose with ⟨middle, rfl, hclose'⟩
        rcases hR.cut x cs middle more hx with ⟨front, rfl, hx'⟩
        exact ⟨front, rfl, .last x _ _ _ hx' hclose'⟩
    | more x xs cs middle behind whole hx hcomma hxs ih =>
        rcases ih hwhole with ⟨behind, rfl, hxs'⟩
        rcases (framed_mark ',').cut () middle behind more hcomma with ⟨middle, rfl, hcomma'⟩
        rcases hR.cut x cs middle more hx with ⟨front, rfl, hx'⟩
        exact ⟨front, rfl, .more x xs _ _ _ _ hx' hcomma' hxs'⟩

theorem Framed.parenthesized (hR : Framed R) : Framed (Parenthesized R) where
  extend xs cs rest more h hrest := by
    cases h with
    | omitted => exact ⟨hrest, .omitted _⟩
    | empty _ middle _ hopen hclose =>
        rcases (framed_mark ')').extend () middle rest more hclose hrest with ⟨hmiddle, hclose'⟩
        rcases (framed_mark '(').extend () cs middle more hopen hmiddle with ⟨hcs, hopen'⟩
        exact ⟨hcs, .empty _ _ _ hopen' hclose'⟩
    | listed _ _ middle _ hopen hxs =>
        rcases hR.listed.extend xs middle rest more hxs hrest with ⟨hmiddle, hxs'⟩
        rcases (framed_mark '(').extend () cs middle more hopen hmiddle with ⟨hcs, hopen'⟩
        exact ⟨hcs, .listed xs _ _ _ hopen' hxs'⟩
  cut xs cs rest more h := by
    cases h with
    | omitted => exact ⟨rest, rfl, .omitted rest⟩
    | empty _ middle _ hopen hclose =>
        rcases (framed_mark ')').cut () middle rest more hclose with ⟨middle, rfl, hclose'⟩
        rcases (framed_mark '(').cut () cs middle more hopen with ⟨front, rfl, hopen'⟩
        exact ⟨front, rfl, .empty _ _ _ hopen' hclose'⟩
    | listed _ _ middle _ hopen hxs =>
        rcases hR.listed.cut xs middle rest more hxs with ⟨middle, rfl, hxs'⟩
        rcases (framed_mark '(').cut () cs middle more hopen with ⟨front, rfl, hopen'⟩
        exact ⟨front, rfl, .listed xs _ _ _ hopen' hxs'⟩

end Lists

theorem framed_tagName : Framed TagName where
  extend t cs rest more h hrest := by
    cases h with
    | bare name _ _ hname =>
        rcases framed_word.extend name cs rest more hname hrest with ⟨hcs, hname'⟩
        exact ⟨hcs, .bare name _ _ hname'⟩
    | inContext context name _ middle behind _ hcontext hdot hname =>
        rcases framed_word.extend name behind rest more hname hrest with ⟨hbehind, hname'⟩
        rcases (framed_mark '.').extend () middle behind more hdot hbehind with ⟨hmiddle, hdot'⟩
        rcases framed_word.extend context cs middle more hcontext hmiddle with ⟨hcs, hcontext'⟩
        exact ⟨hcs, .inContext context name _ _ _ _ hcontext' hdot' hname'⟩
  cut t cs rest more h := by
    cases h with
    | bare name _ _ hname =>
        rcases framed_word.cut name cs rest more hname with ⟨front, rfl, hname'⟩
        exact ⟨front, rfl, .bare name _ _ hname'⟩
    | inContext context name _ middle behind _ hcontext hdot hname =>
        rcases framed_word.cut name behind rest more hname with ⟨behind, rfl, hname'⟩
        rcases (framed_mark '.').cut () middle behind more hdot with ⟨middle, rfl, hdot'⟩
        rcases framed_word.cut context cs middle more hcontext with ⟨front, rfl, hcontext'⟩
        exact ⟨front, rfl, .inContext context name _ _ _ _ hcontext' hdot' hname'⟩

theorem framed_watcherText : Framed WatcherText where
  extend form cs rest more h hrest := by
    cases h with
    | capture key _ middle _ has hkey =>
        rcases framed_word.extend key middle rest more hkey hrest with ⟨hmiddle, hkey'⟩
        rcases framed_word.extend "as" cs middle more has hmiddle with ⟨hcs, has'⟩
        exact ⟨hcs, .capture key _ _ _ has' hkey'⟩
    | filter name args _ middle _ hname hne hargs =>
        rcases framed_quoted.parenthesized.extend args middle rest more hargs hrest with
          ⟨hmiddle, hargs'⟩
        rcases framed_word.extend name cs middle more hname hmiddle with ⟨hcs, hname'⟩
        exact ⟨hcs, .filter name args _ _ _ hname' hne hargs'⟩
  cut form cs rest more h := by
    cases h with
    | capture key _ middle _ has hkey =>
        rcases framed_word.cut key middle rest more hkey with ⟨middle, rfl, hkey'⟩
        rcases framed_word.cut "as" cs middle more has with ⟨front, rfl, has'⟩
        exact ⟨front, rfl, .capture key _ _ _ has' hkey'⟩
    | filter name args _ middle _ hname hne hargs =>
        rcases framed_quoted.parenthesized.cut args middle rest more hargs with
          ⟨middle, rfl, hargs'⟩
        rcases framed_word.cut name cs middle more hname with ⟨front, rfl, hname'⟩
        exact ⟨front, rfl, .filter name args _ _ _ hname' hne hargs'⟩

/-- A bracket is one whatever follows it. It ends with a mark, so it does not matter
    if nothing did. -/
theorem Bracket.extend {form : ItemForm} {cs rest : List Char} (h : Bracket form cs rest)
    (more : List Char) : Bracket form (cs ++ more) (rest ++ more) := by
  cases h with
  | lookup key ws _ behind middle last _ hmark hkey hws hclose =>
      -- The closing bracket is what follows the rest, and so something does.
      have hlast : last ≠ [] := hclose.ne_nil (Or.inl (List.cons_ne_nil _ _))
      rcases framed_watcherText.many.extend ws middle last more hws hlast with ⟨hmiddle, hws'⟩
      rcases framed_word.extend key behind middle more hkey hmiddle with ⟨_, hkey'⟩
      exact .lookup key ws _ _ _ _ _ (Spaced.extend hmark more) hkey' hws'
        (Spaced.extend hclose more)
  | reference tag labels ws _ behind middle last _ htag hlabels hws hclose =>
      have hlast : last ≠ [] := hclose.ne_nil (Or.inl (List.cons_ne_nil _ _))
      rcases framed_watcherText.many.extend ws middle last more hws hlast with ⟨hmiddle, hws'⟩
      rcases framed_label.many.extend labels behind middle more hlabels hmiddle with
        ⟨hbehind, hlabels'⟩
      rcases framed_tagName.extend tag cs behind more htag hbehind with ⟨_, htag'⟩
      exact .reference tag labels ws _ _ _ _ _ htag' hlabels' hws' (Spaced.extend hclose more)

/-- A bracket without what follows it is one. -/
theorem Bracket.cut {form : ItemForm} {cs rest more : List Char}
    (h : Bracket form cs (rest ++ more)) :
    ∃ front, cs = front ++ more ∧ Bracket form front rest := by
  cases h with
  | lookup key ws _ behind middle last _ hmark hkey hws hclose =>
      rcases Spaced.cut hclose with ⟨last, rfl, hclose'⟩
      rcases framed_watcherText.many.cut ws middle last more hws with ⟨middle, rfl, hws'⟩
      rcases framed_word.cut key behind middle more hkey with ⟨behind, rfl, hkey'⟩
      rcases Spaced.cut hmark with ⟨front, rfl, hmark'⟩
      exact ⟨front, rfl, .lookup key ws _ _ _ _ _ hmark' hkey' hws' hclose'⟩
  | reference tag labels ws _ behind middle last _ htag hlabels hws hclose =>
      rcases Spaced.cut hclose with ⟨last, rfl, hclose'⟩
      rcases framed_watcherText.many.cut ws middle last more hws with ⟨middle, rfl, hws'⟩
      rcases framed_label.many.cut labels behind middle more hlabels with ⟨behind, rfl, hlabels'⟩
      rcases framed_tagName.cut tag cs behind more htag with ⟨front, rfl, htag'⟩
      exact ⟨front, rfl, .reference tag labels ws _ _ _ _ _ htag' hlabels' hws' hclose'⟩

end Spelling

end TextGrammar
