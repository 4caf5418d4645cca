import TextGrammar.Proofs.Grammar.Header
import TextGrammar.Proofs.Grammar.Template

/-!
# Rendering

The text of a rule, written from what it spells.

Literal text and strings get a backslash in front of each character that would end
them. Things in a bracket have a space in front, and those in parentheses a comma
and a space between. What is well-formed here is exactly what can be written at all:
names have to be names, and a string cannot hold a line feed.

## Main definitions

* `Rendering.escape`: A text with backslashes.
* `Tag.render`, `WatcherForm.render`, `ItemForm.render`, `OptionForm.render`,
  `HeaderForm.render`: The text of a form.
* `WatcherForm.WellFormed`, `ItemForm.WellFormed`, `HeaderForm.WellFormed`: The forms
  that can be written.

## Theorems

* `Rendering.headerText_render`: A header that was rendered is spelled by its text.
* `Rendering.segmentation_render`: So is a template, with a segment for each form.
* `Tag.parse_render`: The text of a tag names it.
-/

namespace TextGrammar

open Spelling

namespace Rendering

/-- A text with a backslash in front of each character of a class. -/
def escape (special : Char → Bool) (cs : List Char) : List Char :=
  cs.flatMap fun c => if special c then ['\\', c] else [c]

/-- A string in quotes. -/
def quote (s : String) : List Char :=
  '"' :: (escape (fun c => c == '"' || c == '\\') s.toList ++ ['"'])

/-- A field and its value. -/
def field (name : String) (value : List Char) : List Char := name.toList ++ '=' :: value

/-- Things with a space in front of each. -/
def spread {α : Type} (render : α → List Char) (xs : List α) : List Char :=
  xs.flatMap fun x => ' ' :: render x

/-- Things with commas between, and the closing parenthesis. -/
def listed {α : Type} (render : α → List Char) : List α → List Char
  | [] => [')']
  | [x] => render x ++ [')']
  | x :: more => render x ++ ',' :: ' ' :: listed render more

/-- Things in parentheses, or nothing if there are none. -/
def parenthesized {α : Type} (render : α → List Char) : List α → List Char
  | [] => []
  | xs => '(' :: listed render xs

end Rendering

open Rendering

/-- The text of a tag. -/
def Tag.render (t : Tag) : List Char :=
  match t.context with
  | some context => context.toList ++ '.' :: t.name.toList
  | none => t.name.toList

/-- The text of a watcher. -/
def WatcherForm.render : WatcherForm → List Char
  | .capture key => 'a' :: 's' :: ' ' :: key.toList
  | .filter name args => name.toList ++ parenthesized quote args

/-- The text of a piece of a template. -/
def ItemForm.render : ItemForm → List Char
  | .text s => escape (fun c => c == '[' || c == '\\') s.toList
  | .lookup key ws => '[' :: '=' :: (key.toList ++ (spread WatcherForm.render ws ++ [']']))
  | .reference t labels ws =>
    '[' :: (t.render ++ (spread (fun label => '#' :: label.toList) labels ++
      (spread WatcherForm.render ws ++ [']'])))

/-- The text of an option. -/
def OptionForm.render : OptionForm → List Char
  | .priority literal => field "priority" literal
  | .minPriority literal => field "min" literal
  | .frequency literal => field "freq" literal
  | .guard text => field "if" (quote text)
  | .hashtag label => '#' :: label.toList
  | .watcher w => w.render

/-- The text of a header. -/
def HeaderForm.render (header : HeaderForm) : List Char :=
  header.tag.render ++ parenthesized OptionForm.render header.options

/-- The text of a template. -/
def Rendering.template (forms : List ItemForm) : List Char := forms.flatMap ItemForm.render

/-- The text of a rule: the header, an arrow and the template. -/
def Rendering.rule (header : HeaderForm) (forms : List ItemForm) : List Char :=
  header.render ++ ' ' :: '-' :: '>' :: ' ' :: template forms

/-- Tags that can be written. -/
def Tag.WellFormed (t : Tag) : Prop :=
  IsName t.name.toList ∧ ∀ context ∈ t.context, IsName context.toList

/-- Watchers that can be written. The names of filters are not asked about, because
    only known ones have a meaning. -/
def WatcherForm.WellFormed : WatcherForm → Prop
  | .capture key => IsName key.toList
  | .filter _ args => ∀ arg ∈ args, '\n' ∉ arg.toList

/-- Pieces of templates that can be written. -/
def ItemForm.WellFormed : ItemForm → Prop
  | .text s => s ≠ ""
  | .lookup key ws => IsName key.toList ∧ ∀ w ∈ ws, w.WellFormed
  | .reference t labels ws =>
    t.WellFormed ∧ (∀ label ∈ labels, IsName label.toList) ∧ ∀ w ∈ ws, w.WellFormed

/-- Options that can be written. The literals of numbers have a meaning of their own. -/
def OptionForm.WellFormed : OptionForm → Prop
  | .guard text => '\n' ∉ text.toList
  | .hashtag label => IsName label.toList
  | .watcher w => w.WellFormed
  | .priority _ | .minPriority _ | .frequency _ => True

/-- Headers that can be written. -/
def HeaderForm.WellFormed (header : HeaderForm) : Prop :=
  header.tag.WellFormed ∧ ∀ option ∈ header.options, option.WellFormed

instance : DecidablePred Tag.WellFormed := fun _ => inferInstanceAs (Decidable (_ ∧ _))

instance : DecidablePred WatcherForm.WellFormed
  | .capture _ => inferInstanceAs (Decidable (IsName _))
  | .filter _ args => inferInstanceAs (Decidable (∀ arg ∈ args, '\n' ∉ arg.toList))

instance : DecidablePred ItemForm.WellFormed
  | .text s => inferInstanceAs (Decidable (s ≠ ""))
  | .lookup _ _ => inferInstanceAs (Decidable (_ ∧ _))
  | .reference _ _ _ => inferInstanceAs (Decidable (_ ∧ _ ∧ _))

instance : DecidablePred OptionForm.WellFormed
  | .guard text => inferInstanceAs (Decidable ('\n' ∉ text.toList))
  | .hashtag _ => inferInstanceAs (Decidable (IsName _))
  | .watcher w => inferInstanceAs (Decidable w.WellFormed)
  | .priority _ | .minPriority _ | .frequency _ => inferInstanceAs (Decidable True)

instance : DecidablePred HeaderForm.WellFormed := fun _ => inferInstanceAs (Decidable (_ ∧ _))

namespace Rendering

/-- Characters with backslashes are spelled if those without one may be plain. -/
theorem escaped_escape {special : Char → Bool} {mayBePlain mayBeEscaped : Char → Prop}
    (cs : List Char) (hplain : ∀ c ∈ cs, special c = false → mayBePlain c)
    (hescaped : ∀ c ∈ cs, mayBeEscaped c) :
    Escaped mayBePlain mayBeEscaped (escape special cs) cs := by
  induction cs with
  | nil => exact .nil
  | cons c cs ih =>
      have hmore := ih (fun d hd => hplain d (List.mem_cons_of_mem c hd))
        fun d hd => hescaped d (List.mem_cons_of_mem c hd)
      rw [escape, List.flatMap_cons]
      by_cases hc : special c = true
      · rw [if_pos hc]
        exact .escaped c _ cs (hescaped c List.mem_cons_self) hmore
      · rw [if_neg hc]
        exact .plain c _ cs (hplain c List.mem_cons_self (Bool.eq_false_iff.2 hc)) hmore

theorem literal_escape (cs : List Char) :
    Literal (escape (fun c => c == '[' || c == '\\') cs) cs := by
  refine escaped_escape cs (fun c _ hc => ?_) fun _ _ => trivial
  rwa [Bool.or_eq_false_iff, beq_eq_false_iff_ne, beq_eq_false_iff_ne] at hc

/-- A text that spells a thing wherever it stands, with white space in front or not, as
    long as nothing follows that would make a name at its end longer. -/
def Writes {α : Type} (R : α → List Char → List Char → Prop) (x : α) (text : List Char) : Prop :=
  ∀ blanks rest, (∀ c ∈ blanks, Token.isIgnored c = true) → EndsName rest →
    R x (blanks ++ (text ++ rest)) rest

theorem writes_quote {s : String} (hs : '\n' ∉ s.toList) : Writes Quoted s (quote s) := by
  intro blanks rest hblanks _
  have hfeed : ∀ c ∈ s.toList, c ≠ '\n' := fun c hc h => hs (h ▸ hc)
  refine ⟨_, escaped_escape _ (fun c hc hspecial => ?_) hfeed, blanks, hblanks, rfl⟩
  rw [Bool.or_eq_false_iff, beq_eq_false_iff_ne, beq_eq_false_iff_ne] at hspecial
  exact ⟨hspecial.1, hspecial.2, hfeed c hc⟩

theorem writes_word {w : String} (hw : IsName w.toList) : Writes Word w w.toList :=
  fun blanks _ hblanks hrest => ⟨hw, hrest, blanks, hblanks, rfl⟩

theorem writes_label {label : String} (h : IsName label.toList) :
    Writes Label label ('#' :: label.toList) :=
  fun blanks _ hblanks hrest => ⟨h, hrest, blanks, hblanks, rfl⟩

theorem mark_cons (m : Char) (rest : List Char) : Mark m (m :: rest) rest := ⟨[], nofun, rfl⟩

theorem endsName_cons {c : Char} (rest : List Char) (hc : Token.isNameRest c = false) :
    EndsName (c :: rest) := by
  intro d hd
  cases hd
  exact hc

theorem isIgnored_of_mem_space : ∀ c ∈ [' '], Token.isIgnored c = true :=
  List.all_eq_true.1 (by decide)

section Lists

variable {α : Type} {R : α → List Char → List Char → Prop} {render : α → List Char}

theorem endsName_spread (render : α → List Char) (xs : List α) {rest : List Char}
    (hrest : EndsName rest) : EndsName (spread render xs ++ rest) := by
  cases xs with
  | nil => exact hrest
  | cons x xs => exact endsName_cons _ (by decide)

theorem many_spread (xs : List α) (hxs : ∀ x ∈ xs, Writes R x (render x)) {rest : List Char}
    (hrest : EndsName rest) : Many R xs (spread render xs ++ rest) rest := by
  induction xs with
  | nil => exact .nil rest
  | cons x xs ih =>
      have hmore := ih fun y hy => hxs y (List.mem_cons_of_mem x hy)
      have hx := hxs x List.mem_cons_self [' '] _ isIgnored_of_mem_space
        (endsName_spread render xs hrest)
      refine .cons x xs _ _ rest ?_ hmore
      rw [spread, List.flatMap_cons, List.append_assoc]
      exact hx

theorem listed_listed (xs : List α) (hne : xs ≠ []) (hxs : ∀ x ∈ xs, Writes R x (render x))
    (blanks rest : List Char) (hblanks : ∀ c ∈ blanks, Token.isIgnored c = true) :
    Listed R xs (blanks ++ (listed render xs ++ rest)) rest := by
  induction xs generalizing blanks with
  | nil => exact absurd rfl hne
  | cons x more ih =>
      cases more with
      | nil =>
          have hx := hxs x List.mem_cons_self blanks (')' :: rest) hblanks
            (endsName_cons _ (by decide))
          refine .last x _ _ rest ?_ (mark_cons ')' rest)
          rw [listed, List.append_assoc]
          exact hx
      | cons y more =>
          -- The space behind a comma counts as white space in front of the next thing.
          have hmore := ih (List.cons_ne_nil y more)
            (fun z hz => hxs z (List.mem_cons_of_mem x hz)) [' '] isIgnored_of_mem_space
          have hx := hxs x List.mem_cons_self blanks
            (',' :: ([' '] ++ (listed render (y :: more) ++ rest))) hblanks
            (endsName_cons _ (by decide))
          refine .more x (y :: more) _ _ _ rest ?_ (mark_cons ',' _) hmore
          rw [listed, List.append_assoc]
          · exact hx
          · exact List.cons_ne_nil y more

theorem parenthesized_parenthesized (xs : List α) (hxs : ∀ x ∈ xs, Writes R x (render x))
    (rest : List Char) : Parenthesized R xs (parenthesized render xs ++ rest) rest := by
  cases xs with
  | nil => exact .omitted rest
  | cons x more =>
      have hlisted := listed_listed (x :: more) (List.cons_ne_nil x more) hxs [] rest nofun
      exact .listed _ _ _ rest (mark_cons '(' _) hlisted

end Lists

theorem mem_of_isFilter {key : String} {args : List String} {w : Watcher}
    (h : IsFilter key args w) :
    key ∈ ["sentence", "ordinal", "ordinalsuffix", "cardinal", "pluralize", "pluralise"] := by
  cases h with
  | sentence => decide
  | ordinal => decide
  | ordinalSuffix => decide
  | cardinal => decide
  | regular _ hname => rcases hname with rfl | rfl <;> decide
  | plural _ many hname => rcases hname with rfl | rfl <;> decide
  | irregular _ one many hname => rcases hname with rfl | rfl <;> decide

theorem isNameRest_of_isAlpha {c : Char} (h : c.isAlpha = true) : Token.isNameRest c = true := by
  have halphanum : c.isAlphanum = true := Bool.or_eq_true_iff.2 (Or.inl h)
  unfold Token.isNameRest
  rw [halphanum, Bool.true_or]

theorem isAlpha_of_toLower {c : Char} (h : c.toLower.isAlpha = true) : c.isAlpha = true := by
  by_cases hupper : c.isUpper = true
  · exact Bool.or_eq_true_iff.2 (Or.inl hupper)
  · have hlower : c.toLower = c := dif_neg fun h => hupper (decide_eq_true h)
    rwa [hlower] at h

/-- Words that come to those of a known filter in lowercase are names, and no words with
    a meaning of their own. -/
theorem isName_of_isFilter {name : String} {args : List String} {w : Watcher}
    (h : IsFilter (String.ofList (name.toList.map Char.toLower)) args w) :
    IsName name.toList ∧ name ≠ "as" ∧ ¬ NamesField name := by
  have hmem := mem_of_isFilter h
  -- None of these words is a filter in lowercase.
  have hother : ∀ other ∈ ["as", "priority", "min", "freq", "if"], name ≠ other := by
    rintro other hother rfl
    simp only [List.mem_cons, List.not_mem_nil, or_false] at hother
    rcases hother with rfl | rfl | rfl | rfl | rfl
    all_goals exact absurd hmem (by decide)
  have hletters : ∀ key ∈ ["sentence", "ordinal", "ordinalsuffix", "cardinal", "pluralize",
      "pluralise"], key.toList ≠ [] ∧ key.toList.all Char.isAlpha = true := by
    decide
  -- Only letters come to letters, so the name is made of them too.
  have hlower := hletters _ hmem
  rw [String.toList_ofList] at hlower
  have halpha : ∀ c ∈ name.toList, c.isAlpha = true := fun c hc =>
    isAlpha_of_toLower (List.all_eq_true.1 hlower.2 _ (List.mem_map_of_mem hc))
  refine ⟨?_, hother "as" (by decide), fun hfield => ?_⟩
  · cases hlist : name.toList with
    | nil =>
        rw [hlist] at hlower
        exact absurd rfl hlower.1
    | cons c more =>
        rw [hlist] at halpha
        refine ⟨?_, fun d hd => ?_⟩
        · unfold Token.isNameStart
          rw [halpha c List.mem_cons_self, Bool.true_or]
        · exact isNameRest_of_isAlpha (halpha d (List.mem_cons_of_mem c hd))
  · exact hother name (List.mem_cons_of_mem _ hfield) rfl

theorem writes_tag {t : Tag} (h : t.WellFormed) : Writes TagName t t.render := by
  rcases t with ⟨name, context⟩
  rcases h with ⟨hname, hcontext⟩
  intro blanks rest hblanks hrest
  cases context with
  | none => exact .bare name _ rest (writes_word hname blanks rest hblanks hrest)
  | some context =>
      have hfirst :=
        writes_word (hcontext context rfl) blanks ('.' :: (name.toList ++ rest)) hblanks
        (endsName_cons _ (by decide))
      have hsecond := writes_word hname [] rest nofun hrest
      refine .inContext context name _ _ _ rest ?_ (mark_cons '.' _) hsecond
      rw [Tag.render, List.append_assoc]
      exact hfirst

theorem writes_watcher {form : WatcherForm} (h : form.WellFormed)
    (hmeaning : ∃ w, form.StandsFor w) : Writes WatcherText form form.render := by
  intro blanks rest hblanks hrest
  cases form with
  | capture key =>
      have has := writes_word (show IsName "as".toList by decide) blanks
        (' ' :: (key.toList ++ rest)) hblanks (endsName_cons _ (by decide))
      have hkey := writes_word h [' '] rest isIgnored_of_mem_space hrest
      exact .capture key _ _ rest has hkey
  | filter name args =>
      rcases hmeaning with ⟨w, hw⟩
      cases hw with
      | filter _ _ _ hfilter =>
          -- The name is well-formed because the filter is known.
          rcases isName_of_isFilter hfilter with ⟨hname, hne, _⟩
          have hargs :=
            parenthesized_parenthesized args (fun arg harg => writes_quote (h arg harg)) rest
          have hends : EndsName (parenthesized quote args ++ rest) := by
            cases args with
            | nil => exact hrest
            | cons arg args => exact endsName_cons _ (by decide)
          have hword := writes_word hname blanks _ hblanks hends
          refine .filter name args _ _ rest ?_ hne hargs
          rw [WatcherForm.render, List.append_assoc]
          exact hword

theorem writes_option {form : OptionForm} (h : form.WellFormed)
    (hmeaning : ∃ value, form.StandsFor value) : Writes OptionText form form.render := by
  intro blanks rest hblanks hrest
  rcases hmeaning with ⟨value, hvalue⟩
  -- The word of a field, with the equals sign and the value behind it.
  have hfield : ∀ (name : String) (value : List Char), IsName name.toList →
      Word name (blanks ++ (field name value ++ rest)) ('=' :: (value ++ rest)) := by
    intro name value hname
    rw [field, List.append_assoc]
    exact writes_word hname blanks _ hblanks (endsName_cons _ (by decide))
  cases hvalue with
  | priority literal i hliteral _ =>
      exact .priority literal i _ _ _ rest (hfield "priority" literal (by decide))
        (mark_cons '=' _) hliteral ⟨[], nofun, rfl⟩
  | minPriority literal i hliteral _ =>
      exact .minPriority literal i _ _ _ rest (hfield "min" literal (by decide))
        (mark_cons '=' _) hliteral ⟨[], nofun, rfl⟩
  | frequency literal x hliteral =>
      exact .frequency literal x _ _ _ rest (hfield "freq" literal (by decide))
        (mark_cons '=' _) hliteral ⟨[], nofun, rfl⟩
  | guard text =>
      exact .guard text _ _ _ rest (hfield "if" (quote text) (by decide)) (mark_cons '=' _)
        (writes_quote h [] rest nofun hrest)
  | hashtag label => exact .hashtag label _ rest (writes_label h blanks rest hblanks hrest)
  | watcher form w hw =>
      refine .watcher form _ rest (writes_watcher h ⟨w, hw⟩ blanks rest hblanks hrest) ?_
      rintro name args rfl
      cases hw with
      | filter _ _ _ hfilter => exact (isName_of_isFilter hfilter).2.2

/-- A header that was rendered is spelled by its text. -/
theorem headerText_render {header : HeaderForm} (h : header.WellFormed)
    (hmeaning : ∀ form ∈ header.options, ∃ value, form.StandsFor value) :
    HeaderText header header.render := by
  rcases header with ⟨t, options⟩
  rcases h with ⟨htag, hoptions⟩
  have hends : EndsName (parenthesized OptionForm.render options) := by
    cases options with
    | nil => exact nofun
    | cons form options => exact endsName_cons _ (by decide)
  have hparenthesized := parenthesized_parenthesized options
    (fun form hform => writes_option (hoptions form hform) (hmeaning form hform)) []
  rw [List.append_nil] at hparenthesized
  exact ⟨_, [], writes_tag htag [] _ nofun hends, hparenthesized, nofun⟩

/-- A piece of a template that was rendered is a segment. -/
theorem segment_render {form : ItemForm} (h : form.WellFormed)
    (hmeaning : ∃ item, form.StandsFor item) : Segment form.render form := by
  rcases hmeaning with ⟨item, hitem⟩
  have hclose : EndsName [']'] := endsName_cons [] (by decide)
  -- The watchers of a bracket stand in front of the closing one.
  have hwatchers : ∀ (ws : List WatcherForm) (chain : Chain), (∀ w ∈ ws, w.WellFormed) →
      List.Forall₂ WatcherForm.StandsFor ws chain →
      Many WatcherText ws (spread WatcherForm.render ws ++ [']']) [']'] := by
    intro ws chain hws hchain
    exact many_spread ws
      (fun w hw => writes_watcher (hws w hw) (Grammar.exists_of_forall₂ hchain w hw)) hclose
  cases hitem with
  | text s =>
      have hliteral := literal_escape s.toList
      -- Nothing but the empty text is spelled by nothing.
      refine .literal _ s hliteral fun hnil => h ?_
      have hempty : s.toList = [] := by
        rw [show escape _ s.toList = [] from hnil] at hliteral
        generalize s.toList = cs at hliteral
        cases hliteral
        rfl
      exact String.toList_inj.1 hempty
  | lookup key ws chain hchain =>
      rcases h with ⟨hkey, hws⟩
      have hword := writes_word hkey [] _ nofun
        (endsName_spread WatcherForm.render ws hclose)
      exact .bracketed _ _ (.lookup key ws _ _ _ _ [] (mark_cons '=' _) hword
        (hwatchers ws chain hws hchain) (mark_cons ']' []))
  | reference t labels ws chain hchain =>
      rcases h with ⟨htag, hlabels, hws⟩
      have hends := endsName_spread WatcherForm.render ws hclose
      have hmany :=
        many_spread labels (fun label hlabel => writes_label (hlabels label hlabel)) hends
      have hname := writes_tag htag [] _ nofun
        (endsName_spread (fun label : String => '#' :: label.toList) labels hends)
      exact .bracketed _ _ (.reference t labels ws _ _ _ _ [] hname hmany
        (hwatchers ws chain hws hchain) (mark_cons ']' []))

/-- A template that was rendered has one segment for each of its forms. -/
theorem segmentation_render {forms : List ItemForm} (h : ∀ form ∈ forms, form.WellFormed)
    (hmeaning : ∀ form ∈ forms, ∃ item, form.StandsFor item)
    (hmaximal : forms.IsChain fun a b => ¬ (a.IsText ∧ b.IsText)) :
    Segmentation (template forms) (forms.map fun form => (form.render, form)) where
  joined := List.flatMap_map _ _ _
  each := by
    intro s hs
    rcases List.mem_map.1 hs with ⟨form, hform, rfl⟩
    exact segment_render (h form hform) (hmeaning form hform)
  maximal := (List.isChain_map _).2 hmaximal

end Rendering

/-- The characters of a name, the first one included. -/
theorem Spelling.IsName.isNameRest {cs : List Char} (h : IsName cs) :
    ∀ c ∈ cs, Token.isNameRest c = true := by
  cases cs with
  | nil => exact nofun
  | cons first more =>
      rcases h with ⟨hfirst, hmore⟩
      intro c hc
      rcases List.mem_cons.1 hc with rfl | hc
      · unfold Token.isNameStart at hfirst
        rcases Bool.or_eq_true_iff.1 hfirst with h | h
        · exact isNameRest_of_isAlpha h
        · exact Bool.or_eq_true_iff.2 (Or.inr h)
      · exact hmore c hc

/-- The text of a tag names it, because names hold no dots. -/
theorem Tag.parse_render {t : Tag} (h : t.WellFormed) : Tag.parse (String.ofList t.render) = t := by
  -- A name has no dot in it, so the first dot is the one between name and context.
  have hdot : ∀ {w : String}, IsName w.toList → ∀ c ∈ w.toList, (c != '.') = true := by
    intro w hw c hc
    rw [bne_iff_ne]
    rintro rfl
    exact absurd (hw.isNameRest '.' hc) (by decide)
  rcases t with ⟨name, context⟩
  rcases h with ⟨hname, hcontext⟩
  unfold Tag.parse
  rw [String.toList_ofList]
  cases context with
  | none =>
      have hdrop : name.toList.dropWhile (· != '.') = [] := List.dropWhile_eq_nil_iff.2 (hdot hname)
      dsimp only [Tag.render]
      rw [hdrop, String.ofList_toList]
  | some context =>
      have hstop : ∀ c ∈ ('.' :: name.toList).head?, (c != '.') = false := by
        intro c hc
        cases hc
        rfl
      rcases takeWhile_append_of_stop (hdot (hcontext context rfl)) hstop with ⟨htake, hdrop⟩
      dsimp only [Tag.render]
      rw [htake, hdrop]
      dsimp only
      rw [String.ofList_toList, String.ofList_toList]

end TextGrammar
