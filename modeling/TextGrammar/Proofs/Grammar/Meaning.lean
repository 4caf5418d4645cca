import Mathlib.Data.List.Forall2
import TextGrammar.Proofs.Grammar.Literal

/-!
# Meaning of Forms

What watchers, the pieces of templates and options stand for once they have been
read.

The relations say it without the functions that look filters up, so that the only
ways in which a form can mean nothing are an unknown filter and arguments that a
filter does not take.

## Main definitions

* `IsFilter`: The filters by name, with their arguments.
* `WatcherForm.StandsFor`: The watcher of a form.
* `ItemForm.StandsFor`: The piece of a template of a form.
* `OptionForm.StandsFor`: What an option gives to a rule.
* `WatcherForm.Unfit`: Why a form stands for no watcher.

## Theorems

* `Grammar.bind_eq_ok_iff`, `Grammar.mapM_eq_ok_iff`: Computations that may fail.
* `Grammar.watcherOf_eq_ok_iff`, `Grammar.itemOf_eq_ok_iff`: Forms are given their
  meaning.
* `Grammar.unfit_of_watcherOf`, `Grammar.unfit_of_itemOf`: Forms without one have a
  filter that is unfit.
-/

namespace TextGrammar

open Spelling

/-- The filters by their names in lowercase. Only the plural takes arguments, the
    form for one in front if there are two. -/
inductive IsFilter : String → List String → Watcher → Prop
  | sentence : IsFilter "sentence" [] .sentence
  | ordinal : IsFilter "ordinal" [] .ordinal
  | ordinalSuffix : IsFilter "ordinalsuffix" [] .ordinalSuffix
  | cardinal : IsFilter "cardinal" [] .cardinal
  | regular (name : String) (hname : name = "pluralize" ∨ name = "pluralise") :
      IsFilter name [] (.pluralise "" "s")
  | plural (name many : String) (hname : name = "pluralize" ∨ name = "pluralise") :
      IsFilter name [many] (.pluralise "" many)
  | irregular (name one many : String) (hname : name = "pluralize" ∨ name = "pluralise") :
      IsFilter name [one, many] (.pluralise one many)

/-- The watcher that a form stands for. Filters are named in either case. -/
inductive WatcherForm.StandsFor : WatcherForm → Watcher → Prop
  | capture (key : String) : StandsFor (.capture key) (.capture key)
  | filter (name : String) (args : List String) (w : Watcher)
      (h : IsFilter (String.ofList (name.toList.map Char.toLower)) args w) :
      StandsFor (.filter name args) w

/-- Why a form stands for no watcher: there is no filter of its name, the plural got more
    than two arguments, or a filter that takes none got some. -/
inductive WatcherForm.Unfit : WatcherForm → FilterError → Prop
  | unknown (name : String) (args : List String)
      (h : ∀ given w, ¬ IsFilter (String.ofList (name.toList.map Char.toLower)) given w) :
      Unfit (.filter name args) (.unknown name)
  | tooMany (name : String) (args : List String)
      (hname : String.ofList (name.toList.map Char.toLower) = "pluralize" ∨
        String.ofList (name.toList.map Char.toLower) = "pluralise")
      (hargs : 2 < args.length) :
      Unfit (.filter name args) (.tooMany name args.length)
  | notAllowed (name : String) (args : List String) (w : Watcher)
      (h : IsFilter (String.ofList (name.toList.map Char.toLower)) [] w)
      (honly : ∀ given w, IsFilter (String.ofList (name.toList.map Char.toLower)) given w →
        given = [])
      (hargs : args ≠ []) :
      Unfit (.filter name args) (.notAllowed name)

/-- The piece of a template that a form stands for. Labels count as a set, and
    watchers keep their order. -/
inductive ItemForm.StandsFor : ItemForm → Item → Prop
  | text (s : String) : StandsFor (.text s) (.text s)
  | lookup (key : String) (ws : List WatcherForm) (chain : Chain)
      (h : List.Forall₂ WatcherForm.StandsFor ws chain) :
      StandsFor (.lookup key ws) (.lookup key chain)
  | reference (tag : Tag) (labels : List String) (ws : List WatcherForm) (chain : Chain)
      (h : List.Forall₂ WatcherForm.StandsFor ws chain) :
      StandsFor (.reference tag labels ws) (.reference ⟨tag, sortedDistinct labels, chain⟩)

/-- The watchers of a piece of a template. -/
def ItemForm.watchers : ItemForm → List WatcherForm
  | .text _ => []
  | .lookup _ ws => ws
  | .reference _ _ ws => ws

/-- What an option gives to a rule. -/
inductive OptionValue where
  | priority (i : Int)
  | minPriority (i : Int)
  | frequency (x : Binary64)
  | guard (text : String)
  | hashtag (label : String)
  | watcher (w : Watcher)

/-- What the form of an option gives to a rule. Integers must not be too long. -/
inductive OptionForm.StandsFor : OptionForm → OptionValue → Prop
  | priority (literal : List Char) (i : Int) (h : IsInteger literal i)
      (hlimit : literal.countP Char.isDigit ≤ Numeral.integerDigitLimit) :
      StandsFor (.priority literal) (.priority i)
  | minPriority (literal : List Char) (i : Int) (h : IsInteger literal i)
      (hlimit : literal.countP Char.isDigit ≤ Numeral.integerDigitLimit) :
      StandsFor (.minPriority literal) (.minPriority i)
  | frequency (literal : List Char) (x : Binary64) (h : IsNumber literal x) :
      StandsFor (.frequency literal) (.frequency x)
  | guard (text : String) : StandsFor (.guard text) (.guard text)
  | hashtag (label : String) : StandsFor (.hashtag label) (.hashtag label)
  | watcher (form : WatcherForm) (w : Watcher) (h : form.StandsFor w) :
      StandsFor (.watcher form) (.watcher w)

/-- What holds of everything that something of a list stands for holds of all that the
    list stands for. -/
theorem forall_of_forall₂ {α β : Type} {R : α → β → Prop} {Q : β → Prop} {xs : List α}
    {ys : List β} (h : List.Forall₂ R xs ys) (hQ : ∀ x y, R x y → Q y) : ∀ y ∈ ys, Q y := by
  induction h with
  | nil => exact fun y hy => absurd hy List.not_mem_nil
  | cons hfirst _ ih => exact List.forall_mem_cons.2 ⟨hQ _ _ hfirst, ih⟩

namespace Watcher

/-- The entries of the table of filters. -/
theorem lookup_filters {key : String} {w : Watcher} (h : filters.lookup key = some w) :
    (key, w) ∈ filters := by
  rcases List.lookup_eq_some_iff.1 h with ⟨before, after, hsplit, _⟩
  rw [hsplit]
  exact List.mem_append_right before List.mem_cons_self

/-- The plural comes under two names, and with the forms of a regular one. -/
theorem name_of_mem_filters {key singular plural : String}
    (h : (key, .pluralise singular plural) ∈ filters) :
    (key = "pluralize" ∨ key = "pluralise") ∧ singular = "" ∧ plural = "s" := by
  simp only [filters, List.mem_cons, List.not_mem_nil, Prod.mk.injEq, reduceCtorEq,
    pluralise.injEq, and_false, or_false, false_or] at h
  rcases h with ⟨hkey, hforms⟩ | ⟨hkey, hforms⟩
  · exact ⟨Or.inl hkey, hforms⟩
  · exact ⟨Or.inr hkey, hforms⟩

/-- The other filters take no arguments. -/
theorem isFilter_of_mem_filters {key : String} {w : Watcher} (h : (key, w) ∈ filters)
    (hother : ∀ singular plural, w ≠ .pluralise singular plural) : IsFilter key [] w := by
  simp only [filters, List.mem_cons, List.not_mem_nil, Prod.mk.injEq, or_false] at h
  rcases h with ⟨rfl, rfl⟩ | ⟨rfl, rfl⟩ | ⟨rfl, rfl⟩ | ⟨rfl, rfl⟩ | ⟨rfl, rfl⟩ | ⟨rfl, rfl⟩
  · exact .sentence
  · exact absurd rfl (hother "" "s")
  · exact absurd rfl (hother "" "s")
  · exact .ordinal
  · exact .ordinalSuffix
  · exact .cardinal

theorem ofFilter?_eq_ok_iff (name : String) (args : List String) (w : Watcher) :
    ofFilter? name args = .ok w ↔
      IsFilter (String.ofList (name.toList.map Char.toLower)) args w := by
  unfold ofFilter?
  -- Only the name in lowercase is looked up.
  generalize String.ofList (name.toList.map Char.toLower) = key
  constructor
  · intro h
    split at h
    · exact absurd h nofun
    · rename_i singular plural hlookup
      rcases name_of_mem_filters (lookup_filters hlookup) with ⟨hname, rfl, rfl⟩
      -- No argument keeps the regular forms, one gives the plural, and two give both.
      split at h
      · cases h
        exact .regular key hname
      · cases h
        exact .plural key _ hname
      · cases h
        exact .irregular key _ _ hname
      · exact absurd h nofun
    · rename_i w' hother hlookup
      split at h
      · rename_i hempty
        cases h
        rw [List.isEmpty_iff] at hempty
        subst hempty
        exact isFilter_of_mem_filters (lookup_filters hlookup) hother
      · exact absurd h nofun
  · intro h
    cases h with
    | sentence => rfl
    | ordinal => rfl
    | ordinalSuffix => rfl
    | cardinal => rfl
    | regular _ hname => rcases hname with rfl | rfl <;> rfl
    | plural _ many hname => rcases hname with rfl | rfl <;> rfl
    | irregular _ one many hname => rcases hname with rfl | rfl <;> rfl

/-- Only the plural takes arguments. -/
theorem name_of_isFilter {key : String} {args : List String} {w : Watcher}
    (h : IsFilter key args w) (hargs : args ≠ []) : key = "pluralize" ∨ key = "pluralise" := by
  cases h with
  | plural _ many hname => exact hname
  | irregular _ one many hname => exact hname
  | _ => exact absurd rfl hargs

theorem lookup_of_isFilter {key : String} {args : List String} {w : Watcher}
    (h : IsFilter key args w) : filters.lookup key ≠ none := by
  cases h with
  | sentence => decide
  | ordinal => decide
  | ordinalSuffix => decide
  | cardinal => decide
  | regular _ hname => rcases hname with rfl | rfl <;> decide
  | plural _ many hname => rcases hname with rfl | rfl <;> decide
  | irregular _ one many hname => rcases hname with rfl | rfl <;> decide

theorem unfit_of_ofFilter? {name : String} {args : List String} {fault : FilterError}
    (h : ofFilter? name args = .error fault) : WatcherForm.Unfit (.filter name args) fault := by
  unfold ofFilter? at h
  split at h
  · rename_i hlookup
    cases h
    exact .unknown name args fun given w hfilter => lookup_of_isFilter hfilter hlookup
  · rename_i singular plural hlookup
    have hname := (name_of_mem_filters (lookup_filters hlookup)).1
    split at h
    · exact absurd h nofun
    · exact absurd h nofun
    · exact absurd h nofun
    · rename_i hnone hone htwo
      cases h
      refine .tooMany name args hname ?_
      -- Lists of up to two arguments have been taken.
      match args with
      | [] => exact absurd rfl hnone
      | [many] => exact absurd rfl (hone many)
      | [one, many] => exact absurd rfl (htwo one many)
      | _ :: _ :: _ :: rest => exact Nat.le_add_left 3 rest.length
  · rename_i w hother hlookup
    split at h
    · exact absurd h nofun
    · rename_i hargs
      cases h
      have hmem := lookup_filters hlookup
      refine .notAllowed name args w (isFilter_of_mem_filters hmem hother) ?_ ?_
      · intro given w' hfilter
        by_contra hgiven
        have hname := name_of_isFilter hfilter hgiven
        rcases hname with hname | hname
        · rw [hname] at hlookup
          exact hother _ _ (Option.some.inj hlookup).symm
        · rw [hname] at hlookup
          exact hother _ _ (Option.some.inj hlookup).symm
      · rwa [List.isEmpty_iff] at hargs

end Watcher

namespace Grammar

theorem watcherOf_eq_ok_iff (place : Place) (form : WatcherForm) (w : Watcher) :
    watcherOf place form = .ok w ↔ form.StandsFor w := by
  cases form with
  | capture key =>
      constructor
      · intro h
        cases h
        exact .capture key
      · intro h
        cases h
        rfl
  | filter name args =>
      constructor
      · intro h
        unfold watcherOf at h
        dsimp only at h
        split at h
        · rename_i w' hfilter
          cases h
          exact .filter name args w ((Watcher.ofFilter?_eq_ok_iff name args w).1 hfilter)
        · exact absurd h nofun
      · intro h
        cases h with
        | filter _ _ _ hfilter =>
            unfold watcherOf
            dsimp only
            rw [(Watcher.ofFilter?_eq_ok_iff name args w).2 hfilter]

theorem unfit_of_watcherOf {place : Place} {form : WatcherForm} {e : LoadError}
    (h : watcherOf place form = .error e) :
    ∃ fault, form.Unfit fault ∧ e = .grammar ⟨.filter fault, place.file, place.line⟩ := by
  unfold watcherOf at h
  split at h
  · exact absurd h nofun
  · rename_i name args
    split at h
    · exact absurd h nofun
    · rename_i fault hfault
      cases h
      exact ⟨fault, Watcher.unfit_of_ofFilter? hfault, rfl⟩

section Failure

variable {ε α β : Type}

/-- Two computations succeed one after the other if both do. -/
theorem bind_eq_ok_iff (x : Except ε α) (f : α → Except ε β) (b : β) :
    (x >>= f) = .ok b ↔ ∃ a, x = .ok a ∧ f a = .ok b := by
  cases x with
  | error e => exact ⟨nofun, fun ⟨_, h, _⟩ => absurd h nofun⟩
  | ok a =>
      constructor
      · intro h
        exact ⟨a, rfl, h⟩
      · rintro ⟨_, h, hf⟩
        cases h
        exact hf

theorem bind_eq_error_iff (x : Except ε α) (f : α → Except ε β) (e : ε) :
    (x >>= f) = .error e ↔ x = .error e ∨ ∃ a, x = .ok a ∧ f a = .error e := by
  cases x with
  | error e' =>
      constructor
      · intro h
        cases h
        exact Or.inl rfl
      · rintro (h | ⟨_, h, _⟩)
        · cases h
          rfl
        · exact absurd h nofun
  | ok a =>
      constructor
      · intro h
        exact Or.inr ⟨a, rfl, h⟩
      · rintro (h | ⟨_, h, hf⟩)
        · exact absurd h nofun
        · cases h
          exact hf

theorem exists_of_forall₂ {R : α → β → Prop} {xs : List α} {ys : List β}
    (h : List.Forall₂ R xs ys) : ∀ x ∈ xs, ∃ y, R x y := by
  induction h with
  | nil => exact nofun
  | cons hfirst hmore ih =>
      intro x hx
      rcases List.mem_cons.1 hx with rfl | hx
      · exact ⟨_, hfirst⟩
      · exact ih x hx

/-- A list is mapped if each of its members is. -/
theorem mapM_eq_ok_iff (f : α → Except ε β) (xs : List α) (ys : List β) :
    xs.mapM f = .ok ys ↔ List.Forall₂ (fun x y => f x = .ok y) xs ys := by
  induction xs generalizing ys with
  | nil =>
      constructor
      · intro h
        cases h
        exact .nil
      · intro h
        cases h
        rfl
  | cons x xs ih =>
      rw [List.mapM_cons, bind_eq_ok_iff]
      constructor
      · rintro ⟨y, hx, h⟩
        rcases (bind_eq_ok_iff _ _ _).1 h with ⟨more, hxs, hys⟩
        cases hys
        exact .cons hx ((ih more).1 hxs)
      · intro h
        cases h with
        | cons hx hxs => exact ⟨_, hx, (bind_eq_ok_iff _ _ _).2 ⟨_, (ih _).2 hxs, rfl⟩⟩

/-- If a list is not mapped one of its members is not. -/
theorem exists_of_mapM_eq_error {f : α → Except ε β} {xs : List α} {e : ε}
    (h : xs.mapM f = .error e) : ∃ x ∈ xs, f x = .error e := by
  induction xs with
  | nil => exact absurd h nofun
  | cons x xs ih =>
      rw [List.mapM_cons] at h
      rcases (bind_eq_error_iff _ _ _).1 h with hx | ⟨y, _, h⟩
      · exact ⟨x, List.mem_cons_self, hx⟩
      · rcases (bind_eq_error_iff _ _ _).1 h with hxs | ⟨more, _, h⟩
        · rcases ih hxs with ⟨x', hx', hf⟩
          exact ⟨x', List.mem_cons_of_mem x hx', hf⟩
        · exact absurd h nofun

end Failure

theorem mapM_watcherOf_eq_ok_iff (place : Place) (ws : List WatcherForm) (chain : Chain) :
    ws.mapM (watcherOf place) = .ok chain ↔ List.Forall₂ WatcherForm.StandsFor ws chain := by
  simp only [mapM_eq_ok_iff, watcherOf_eq_ok_iff]

theorem itemOf_eq_ok_iff (place : Place) (form : ItemForm) (item : Item) :
    itemOf place form = .ok item ↔ form.StandsFor item := by
  constructor
  · intro h
    cases form with
    | text s =>
        cases h
        exact .text s
    | lookup key ws =>
        rcases (bind_eq_ok_iff _ _ _).1 h with ⟨chain, hws, hitem⟩
        cases hitem
        exact .lookup key ws chain ((mapM_watcherOf_eq_ok_iff place ws chain).1 hws)
    | reference tag labels ws =>
        rcases (bind_eq_ok_iff _ _ _).1 h with ⟨chain, hws, hitem⟩
        cases hitem
        exact .reference tag labels ws chain ((mapM_watcherOf_eq_ok_iff place ws chain).1 hws)
  · intro h
    cases h with
    | text s => rfl
    | lookup key ws chain hws =>
        exact (bind_eq_ok_iff _ _ _).2 ⟨chain, (mapM_watcherOf_eq_ok_iff place ws chain).2 hws, rfl⟩
    | reference tag labels ws chain hws =>
        exact (bind_eq_ok_iff _ _ _).2 ⟨chain, (mapM_watcherOf_eq_ok_iff place ws chain).2 hws, rfl⟩

theorem unfit_of_mapM_watcherOf {place : Place} {ws : List WatcherForm} {e : LoadError}
    (h : ws.mapM (watcherOf place) = .error e) :
    ∃ form ∈ ws, ∃ fault, form.Unfit fault ∧
      e = .grammar ⟨.filter fault, place.file, place.line⟩ := by
  rcases exists_of_mapM_eq_error h with ⟨form, hform, he⟩
  exact ⟨form, hform, unfit_of_watcherOf he⟩

theorem unfit_of_itemOf {place : Place} {form : ItemForm} {e : LoadError}
    (h : itemOf place form = .error e) :
    ∃ w ∈ form.watchers, ∃ fault, w.Unfit fault ∧
      e = .grammar ⟨.filter fault, place.file, place.line⟩ := by
  cases form with
  | text s => exact absurd h nofun
  | lookup key ws =>
      rcases (bind_eq_error_iff _ _ _).1 h with hws | ⟨_, _, h⟩
      · exact unfit_of_mapM_watcherOf hws
      · exact absurd h nofun
  | reference tag labels ws =>
      rcases (bind_eq_error_iff _ _ _).1 h with hws | ⟨_, _, h⟩
      · exact unfit_of_mapM_watcherOf hws
      · exact absurd h nofun

end Grammar

end TextGrammar
