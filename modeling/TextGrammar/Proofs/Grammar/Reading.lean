import TextGrammar.Proofs.Grammar.Spelling

/-!
# Reading Spellings

That the readers of tokens and forms read what is spelled, and nothing else.

A reader is sound for a spelling if what it has read is always spelled, and complete
if it reads everything that is. A spelling may end where the text still goes on in a
way that the reader would follow, so completeness asks for what comes next.

## Main definitions

* `Spelling.next?`: The first character behind white space.
* `Reader.Sound`, `Reader.Complete`: What it is to read a spelling.

## Theorems

* `Token.name?_eq_some_iff`, `Token.hashtag?_eq_some_iff`, `Token.quoted?_eq_some_iff`:
  Tokens are taken if they are spelled.
* `Reader.sound_listFrom`, `Reader.sound_manyFrom`, `Reader.complete_listFrom`,
  `Reader.complete_manyFrom`: Several things are read if each of them is.
* `Reader.sound_bracket`, `Reader.complete_bracket`: Brackets are read.
-/

namespace TextGrammar

open Spelling

namespace Spelling

/-- The first character behind white space. -/
def next? (cs : List Char) : Option Char := (cs.dropWhile Token.isIgnored).head?

/-- A token with white space in front is what comes next. -/
theorem Spaced.ahead {raw cs rest : List Char} (h : Spaced raw cs rest)
    (hraw : ∀ c ∈ (raw ++ rest).head?, Token.isIgnored c = false) :
    cs.dropWhile Token.isIgnored = raw ++ rest := by
  rcases h with ⟨blanks, hblanks, rfl⟩
  exact (takeWhile_append_of_stop hblanks hraw).2

theorem spaced_iff {first : Char} {raw cs rest : List Char}
    (hfirst : Token.isIgnored first = false) :
    Spaced (first :: raw) cs rest ↔ cs.dropWhile Token.isIgnored = first :: raw ++ rest := by
  constructor
  · intro h
    refine h.ahead fun c hc => ?_
    cases hc
    exact hfirst
  · intro h
    refine ⟨cs.takeWhile Token.isIgnored, fun c hc => List.mem_takeWhile_imp hc, ?_⟩
    rw [← h, List.takeWhile_append_dropWhile]

theorem Spaced.next? {first : Char} {raw cs rest : List Char} (h : Spaced (first :: raw) cs rest)
    (hfirst : Token.isIgnored first = false) : next? cs = some first := by
  rw [Spelling.next?, (spaced_iff hfirst).1 h]
  rfl

theorem Spaced.length_lt {first : Char} {raw cs rest : List Char}
    (h : Spaced (first :: raw) cs rest) : rest.length < cs.length := by
  rcases h with ⟨blanks, _, rfl⟩
  simp only [List.length_append, List.length_cons]
  omega

theorem Many.length_le {α : Type} {R : α → List Char → List Char → Prop} {xs : List α}
    {cs rest : List Char} (h : Many R xs cs rest)
    (hlt : ∀ x cs rest, R x cs rest → rest.length < cs.length) :
    xs.length + rest.length ≤ cs.length := by
  induction h with
  | nil cs =>
      rw [List.length_nil]
      omega
  | cons x xs cs middle rest hx hxs ih =>
      have := hlt x cs middle hx
      rw [List.length_cons]
      omega

theorem Listed.length_lt {α : Type} {R : α → List Char → List Char → Prop} {xs : List α}
    {cs rest : List Char} (h : Listed R xs cs rest)
    (hlt : ∀ x cs rest, R x cs rest → rest.length < cs.length) :
    xs.length + rest.length < cs.length := by
  induction h with
  | last x cs middle rest hx hclose =>
      have := hlt x cs middle hx
      have := hclose.length_lt
      rw [List.length_singleton]
      omega
  | more x xs cs middle behind rest hx hcomma hxs ih =>
      have := hlt x cs middle hx
      have := hcomma.length_lt
      rw [List.length_cons]
      omega

theorem Parenthesized.length_le {α : Type} {R : α → List Char → List Char → Prop} {xs : List α}
    {cs rest : List Char} (h : Parenthesized R xs cs rest)
    (hlt : ∀ x cs rest, R x cs rest → rest.length < cs.length) : rest.length ≤ cs.length := by
  cases h with
  | omitted => exact Nat.le_refl _
  | empty _ middle _ hopen hclose =>
      have := hopen.length_lt
      have := hclose.length_lt
      omega
  | listed _ _ middle _ hopen hxs =>
      have := hopen.length_lt
      have := hxs.length_lt hlt
      omega

theorem Listed.next?_ne {α : Type} {R : α → List Char → List Char → Prop} {xs : List α} {m : Char}
    {cs rest : List Char} (h : Listed R xs cs rest)
    (hfirst : ∀ x cs rest, R x cs rest → Spelling.next? cs ≠ some m) :
    Spelling.next? cs ≠ some m := by
  cases h with
  | last x _ middle _ hx _ => exact hfirst x cs middle hx
  | more x _ _ middle _ _ hx _ _ => exact hfirst x cs middle hx

/-- The characters of white space between tokens. -/
theorem mem_of_isIgnored {c : Char} (h : Token.isIgnored c = true) :
    c ∈ [' ', '\t', '\x0c', '\r', '\n'] := by
  unfold Token.isIgnored at h
  simpa only [Bool.or_eq_true, beq_iff_eq, List.mem_cons, List.not_mem_nil, or_false, or_assoc]
    using h

theorem isIgnored_eq_false {p : Char → Bool} (hp : [' ', '\t', '\x0c', '\r', '\n'].any p = false)
    {c : Char} (h : p c = true) : Token.isIgnored c = false := by
  rw [Bool.eq_false_iff]
  intro hignored
  exact List.any_eq_false.1 hp c (mem_of_isIgnored hignored) h

theorem isIgnored_of_isNameStart {c : Char} (h : Token.isNameStart c = true) :
    Token.isIgnored c = false := isIgnored_eq_false (by decide) h

/-- What starts a name is no mark. -/
theorem ne_of_isNameStart {m : Char} (hm : Token.isNameStart m = false) {o : Option Char}
    (ho : o.any Token.isNameStart = true) : o ≠ some m := by
  rintro rfl
  exact Bool.false_ne_true (hm.symm.trans ho)

theorem endsName_dropWhile (cs : List Char) : EndsName (cs.dropWhile Token.isNameRest) := by
  intro c hc
  have hstop := List.head?_dropWhile_not Token.isNameRest cs
  rw [hc] at hstop
  exact hstop

/-- The first character of a word starts a name. -/
theorem Word.next? {w : String} {cs rest : List Char} (h : Word w cs rest) :
    (Spelling.next? cs).any Token.isNameStart = true := by
  rcases h with ⟨hw, _, hspaced⟩
  cases hlist : w.toList with
  | nil =>
      rw [hlist] at hw
      exact hw.elim
  | cons first more =>
      rw [hlist] at hw hspaced
      rw [hspaced.next? (isIgnored_of_isNameStart hw.1)]
      exact hw.1

theorem Word.length_lt {w : String} {cs rest : List Char} (h : Word w cs rest) :
    rest.length < cs.length := by
  rcases h with ⟨hw, _, hspaced⟩
  cases hlist : w.toList with
  | nil =>
      rw [hlist] at hw
      exact hw.elim
  | cons first more =>
      rw [hlist] at hspaced
      exact hspaced.length_lt

theorem Label.next? {label : String} {cs rest : List Char} (h : Label label cs rest) :
    Spelling.next? cs = some '#' := h.2.2.next? (by decide)

theorem Label.length_lt {label : String} {cs rest : List Char} (h : Label label cs rest) :
    rest.length < cs.length := h.2.2.length_lt

theorem Quoted.next? {s : String} {cs rest : List Char} (h : Quoted s cs rest) :
    Spelling.next? cs = some '"' := by
  rcases h with ⟨body, _, hspaced⟩
  exact hspaced.next? (by decide)

theorem Quoted.length_lt {s : String} {cs rest : List Char} (h : Quoted s cs rest) :
    rest.length < cs.length := by
  rcases h with ⟨body, _, hspaced⟩
  exact hspaced.length_lt

theorem TagName.next? {t : Tag} {cs rest : List Char} (h : TagName t cs rest) :
    (Spelling.next? cs).any Token.isNameStart = true := by
  cases h with
  | bare name _ _ hname => exact hname.next?
  | inContext context name _ middle behind _ hcontext hdot hname => exact hcontext.next?

theorem WatcherText.next? {form : WatcherForm} {cs rest : List Char}
    (h : WatcherText form cs rest) : (Spelling.next? cs).any Token.isNameStart = true := by
  cases h with
  | capture key _ middle _ has hkey => exact has.next?
  | filter name args _ middle _ hname hne hargs => exact hname.next?

theorem WatcherText.length_lt {form : WatcherForm} {cs rest : List Char}
    (h : WatcherText form cs rest) : rest.length < cs.length := by
  cases h with
  | capture key _ middle _ has hkey => exact hkey.length_lt.trans has.length_lt
  | filter name args _ middle _ hname hne hargs =>
      exact (hargs.length_le fun _ _ _ => Quoted.length_lt).trans_lt hname.length_lt

end Spelling

namespace Token

theorem name?_eq_some_iff (cs w rest : List Char) :
    name? cs = some (w, rest) ↔ IsName w ∧ EndsName rest ∧ cs = w ++ rest := by
  constructor
  · intro h
    cases cs with
    | nil => exact absurd h nofun
    | cons first more =>
        rw [name?] at h
        split at h
        · rename_i hfirst
          cases h
          -- The run is the longest one, so the name does not go on behind it.
          refine ⟨⟨hfirst, fun c hc => List.mem_takeWhile_imp hc⟩, endsName_dropWhile more, ?_⟩
          rw [List.cons_append, List.takeWhile_append_dropWhile]
        · exact absurd h nofun
  · rintro ⟨hw, hends, rfl⟩
    cases w with
    | nil => exact hw.elim
    | cons first more =>
        rcases hw with ⟨hfirst, hmore⟩
        rcases takeWhile_append_of_stop hmore hends with ⟨htake, hdrop⟩
        rw [List.cons_append, name?, if_pos hfirst, htake, hdrop]

theorem hashtag?_eq_some_iff (cs label rest : List Char) :
    hashtag? cs = some (label, rest) ↔
      IsName label ∧ EndsName rest ∧ cs = '#' :: label ++ rest := by
  constructor
  · intro h
    unfold hashtag? at h
    split at h
    · rcases (name?_eq_some_iff _ _ _).1 h with ⟨hlabel, hends, rfl⟩
      exact ⟨hlabel, hends, rfl⟩
    · exact absurd h nofun
  · rintro ⟨hlabel, hends, rfl⟩
    exact (name?_eq_some_iff _ _ _).2 ⟨hlabel, hends, rfl⟩

theorem map_cons_eq_some_iff (c : Char) (o : Option (List Char × List Char))
    (text rest : List Char) :
    (o.map fun (text, rest) => (c :: text, rest)) = some (text, rest) ↔
      ∃ more, o = some (more, rest) ∧ text = c :: more := by
  cases o with
  | none => exact ⟨nofun, fun ⟨_, h, _⟩ => absurd h nofun⟩
  | some pair =>
      rcases pair with ⟨more, rest'⟩
      constructor
      · intro h
        cases h
        exact ⟨more, rfl, rfl⟩
      · rintro ⟨_, h, rfl⟩
        cases h
        rfl

theorem quotedRest?_eq_some_iff (cs text rest : List Char) :
    quotedRest? cs = some (text, rest) ↔
      ∃ body, QuotedBody body text ∧ cs = body ++ '"' :: rest := by
  constructor
  · intro h
    fun_induction quotedRest? cs generalizing text with
    | case1 => exact absurd h nofun
    | case2 after =>
        cases h
        exact ⟨[], .nil, rfl⟩
    | case3 => exact absurd h nofun
    | case4 => exact absurd h nofun
    | case5 c after hc ih =>
        rcases (map_cons_eq_some_iff _ _ _ _).1 h with ⟨more, hmore, rfl⟩
        rcases ih more hmore with ⟨body, hbody, rfl⟩
        exact ⟨'\\' :: c :: body, .escaped c body more hc hbody, rfl⟩
    | case6 c after hquote hfeed hescapedFeed hescaped ih =>
        rcases (map_cons_eq_some_iff _ _ _ _).1 h with ⟨more, hmore, rfl⟩
        rcases ih more hmore with ⟨body, hbody, rfl⟩
        -- A backslash that escapes nothing is the last character, and no quote follows.
        have hbackslash : c ≠ '\\' := by
          intro hc
          cases body with
          | nil => exact hescaped _ _ hc rfl
          | cons d body => exact hescaped _ _ hc rfl
        exact ⟨c :: body, .plain c body more ⟨hquote, hbackslash, hfeed⟩ hbody, rfl⟩
  · rintro ⟨body, hbody, rfl⟩
    induction hbody with
    | nil => rfl
    | plain c raw text hc h ih =>
        rcases hc with ⟨hquote, hbackslash, hfeed⟩
        -- The equation for other characters holds for none of the special ones.
        rw [List.cons_append, quotedRest?, ih]
        · rfl
        · exact hquote
        · exact hfeed
        · exact fun _ hc _ => hbackslash hc
        · exact fun _ _ hc _ => hbackslash hc
    | escaped c raw text hc h ih =>
        rw [List.cons_append, List.cons_append, quotedRest?, ih]
        · rfl
        · exact hc

theorem quoted?_eq_some_iff (cs text rest : List Char) :
    quoted? cs = some (text, rest) ↔
      ∃ body, QuotedBody body text ∧ cs = '"' :: (body ++ ['"']) ++ rest := by
  constructor
  · intro h
    unfold quoted? at h
    split at h
    · rcases (quotedRest?_eq_some_iff _ _ _).1 h with ⟨body, hbody, rfl⟩
      exact ⟨body, hbody, by rw [List.cons_append, List.append_assoc]; rfl⟩
    · exact absurd h nofun
  · rintro ⟨body, hbody, rfl⟩
    rw [List.cons_append, List.append_assoc]
    exact (quotedRest?_eq_some_iff _ _ _).2 ⟨body, hbody, rfl⟩

end Token

namespace Reader

variable {α β : Type}

theorem bind_eq_ok (x : Reader α) (f : α → Reader β) (c d : Cursor) (b : β) :
    (x >>= f) c = .ok (b, d) ↔ ∃ a middle, x c = .ok (a, middle) ∧ f a middle = .ok (b, d) := by
  change (x c >>= fun p => f p.1 p.2) = _ ↔ _
  cases hx : x c with
  | error e => exact ⟨nofun, fun ⟨_, _, h, _⟩ => absurd h nofun⟩
  | ok p =>
      constructor
      · intro h
        exact ⟨p.1, p.2, rfl, h⟩
      · rintro ⟨a, middle, h, hf⟩
        cases h
        exact hf

theorem bind_of_ok {x : Reader α} {f : α → Reader β} {c middle : Cursor} {a : α}
    (h : x c = .ok (a, middle)) : (x >>= f) c = f a middle := by
  change (x c >>= fun p => f p.1 p.2) = _
  rw [h]
  rfl

theorem pure_eq_ok (a b : α) (c d : Cursor) :
    (pure a : Reader α) c = .ok (b, d) ↔ a = b ∧ c = d := by
  constructor
  · intro h
    cases h
    exact ⟨rfl, rfl⟩
  · rintro ⟨rfl, rfl⟩
    rfl

theorem token_eq_ok (read? : List Char → Option (List Char × List Char)) (c d : Cursor)
    (text : List Char) :
    token read? c = .ok (text, d) ↔
      read? c.ahead = some (text, d.rest) ∧ d.lastToken = c.ahead := by
  unfold token
  cases hread : read? c.ahead with
  | none => exact ⟨nofun, fun h => absurd h.1 nofun⟩
  | some pair =>
      rcases pair with ⟨text', rest⟩
      constructor
      · intro h
        cases h
        exact ⟨rfl, rfl⟩
      · rintro ⟨h, hlast⟩
        cases h
        rw [← hlast]

/-- A token that is read as a text. -/
theorem text_eq_ok (read? : List Char → Option (List Char × List Char)) (c d : Cursor)
    (s : String) :
    (do return String.ofList (← token read?) : Reader String) c = .ok (s, d) ↔
      read? c.ahead = some (s.toList, d.rest) ∧ d.lastToken = c.ahead := by
  refine (bind_eq_ok _ _ _ _ _).trans ?_
  constructor
  · rintro ⟨text, middle, htoken, hpure⟩
    rcases (pure_eq_ok _ _ _ _).1 hpure with ⟨rfl, rfl⟩
    rw [String.toList_ofList]
    exact (token_eq_ok _ _ _ _).1 htoken
  · intro h
    exact ⟨s.toList, d, (token_eq_ok _ _ _ _).2 h,
      (pure_eq_ok _ _ _ _).2 ⟨String.ofList_toList, rfl⟩⟩

theorem name_eq_ok (c d : Cursor) (w : String) :
    name c = .ok (w, d) ↔ Word w c.rest d.rest ∧ d.lastToken = c.ahead := by
  refine (text_eq_ok _ _ _ _).trans (and_congr_left fun _ => ?_)
  rw [Token.name?_eq_some_iff]
  refine and_congr_right fun hw => and_congr_right fun _ => ?_
  cases hlist : w.toList with
  | nil =>
      rw [hlist] at hw
      exact hw.elim
  | cons first more =>
      rw [hlist] at hw
      exact (spaced_iff (isIgnored_of_isNameStart hw.1)).symm

theorem hashtag_eq_ok (c d : Cursor) (label : String) :
    hashtag c = .ok (label, d) ↔ Label label c.rest d.rest ∧ d.lastToken = c.ahead := by
  refine (text_eq_ok _ _ _ _).trans (and_congr_left fun _ => ?_)
  rw [Token.hashtag?_eq_some_iff]
  exact and_congr_right fun _ => and_congr_right fun _ => (spaced_iff (by decide)).symm

theorem quoted_eq_ok (c d : Cursor) (s : String) :
    quoted c = .ok (s, d) ↔ Quoted s c.rest d.rest ∧ d.lastToken = c.ahead := by
  refine (text_eq_ok _ _ _ _).trans (and_congr_left fun _ => ?_)
  rw [Token.quoted?_eq_some_iff]
  exact exists_congr fun body => and_congr_right fun _ => (spaced_iff (by decide)).symm

theorem mark_eq_ok {m : Char} (hm : Token.isIgnored m = false) (c d : Cursor) :
    mark m c = .ok ((), d) ↔ Mark m c.rest d.rest ∧ d.lastToken = c.ahead := by
  unfold mark Mark
  rw [spaced_iff hm]
  change _ ↔ c.ahead = [m] ++ d.rest ∧ _
  cases hahead : c.ahead with
  | nil => exact ⟨nofun, fun h => absurd h.1 nofun⟩
  | cons x rest =>
      dsimp only
      split
      · rename_i hx
        subst hx
        constructor
        · intro h
          cases h
          exact ⟨rfl, rfl⟩
        · rintro ⟨h, hlast⟩
          rcases d with ⟨last, rest'⟩
          rw [show last = x :: rest from hlast, show rest = rest' from (List.cons.inj h).2]
      · rename_i hx
        exact ⟨nofun, fun h => absurd (List.cons.inj h.1).1 hx⟩

theorem markIfNext_eq (m : Char) (c : Cursor) :
    markIfNext m c =
      (if Spelling.next? c.rest = some m then (do mark m; return true)
        else return false : Reader Bool) c := rfl

theorem markIfNext_of_mark {m : Char} (hm : Token.isIgnored m = false) {c : Cursor}
    {rest : List Char} (h : Mark m c.rest rest) :
    markIfNext m c = .ok (true, ⟨c.ahead, rest⟩) := by
  rw [markIfNext_eq, if_pos (h.next? hm)]
  exact (bind_eq_ok _ _ _ _ _).2 ⟨(), _, (mark_eq_ok hm _ ⟨c.ahead, rest⟩).2 ⟨h, rfl⟩, rfl⟩

theorem markIfNext_of_ne {m : Char} {c : Cursor} (h : Spelling.next? c.rest ≠ some m) :
    markIfNext m c = .ok (false, c) := by
  rw [markIfNext_eq, if_neg h]
  rfl

theorem mark_of_markIfNext {m : Char} (hm : Token.isIgnored m = false) {c d : Cursor} {b : Bool}
    (h : markIfNext m c = .ok (b, d)) :
    (b = true ∧ Mark m c.rest d.rest) ∨ (b = false ∧ d = c) := by
  rw [markIfNext_eq] at h
  split at h
  · rcases (bind_eq_ok _ _ _ _ _).1 h with ⟨_, middle, hmark, hpure⟩
    rcases (pure_eq_ok _ _ _ _).1 hpure with ⟨rfl, rfl⟩
    exact Or.inl ⟨rfl, ((mark_eq_ok hm _ _).1 hmark).1⟩
  · rcases (pure_eq_ok _ _ _ _).1 h with ⟨rfl, rfl⟩
    exact Or.inr ⟨rfl, rfl⟩

/-- What a reader has read is spelled. -/
def Sound (r : Reader α) (R : α → List Char → List Char → Prop) : Prop :=
  ∀ c a d, r c = .ok (a, d) → R a c.rest d.rest

/-- A reader reads what is spelled in front of what may follow. -/
def Complete (r : Reader α) (R : α → List Char → List Char → Prop)
    (follow : Option Char → Prop) : Prop :=
  ∀ c a rest, R a c.rest rest → follow (Spelling.next? rest) →
    ∃ d, r c = .ok (a, d) ∧ d.rest = rest

theorem sound_name : Sound name Word := fun c w d h => ((name_eq_ok c d w).1 h).1

theorem complete_name : Complete name Word fun _ => True := fun c w rest h _ =>
  ⟨⟨c.ahead, rest⟩, (name_eq_ok c _ w).2 ⟨h, rfl⟩, rfl⟩

theorem sound_hashtag : Sound hashtag Label := fun c l d h => ((hashtag_eq_ok c d l).1 h).1

theorem complete_hashtag : Complete hashtag Label fun _ => True := fun c l rest h _ =>
  ⟨⟨c.ahead, rest⟩, (hashtag_eq_ok c _ l).2 ⟨h, rfl⟩, rfl⟩

theorem sound_quoted : Sound quoted Quoted := fun c s d h => ((quoted_eq_ok c d s).1 h).1

theorem complete_quoted : Complete quoted Quoted fun _ => True := fun c s rest h _ =>
  ⟨⟨c.ahead, rest⟩, (quoted_eq_ok c _ s).2 ⟨h, rfl⟩, rfl⟩

theorem sound_mark {m : Char} (hm : Token.isIgnored m = false) :
    Sound (mark m) fun _ => Mark m := fun c _ d h => ((mark_eq_ok hm c d).1 h).1

theorem complete_mark {m : Char} (hm : Token.isIgnored m = false) :
    Complete (mark m) (fun _ => Mark m) fun _ => True := fun c _ rest h _ =>
  ⟨⟨c.ahead, rest⟩, (mark_eq_ok hm c _).2 ⟨h, rfl⟩, rfl⟩

theorem sound_tag : Sound tag TagName := by
  intro c t d hread
  rcases (bind_eq_ok _ _ _ _ _).1 hread with ⟨first, c₁, hfirst, hread₁⟩
  rcases (bind_eq_ok _ _ _ _ _).1 hread₁ with ⟨dotted, c₂, hdotted, hread₂⟩
  -- A dot behind the first name makes it the context of a second one.
  rcases mark_of_markIfNext (by decide) hdotted with ⟨rfl, hdot⟩ | ⟨rfl, rfl⟩
  · rcases (bind_eq_ok _ _ _ _ _).1 hread₂ with ⟨second, c₃, hsecond, hread₃⟩
    rcases (pure_eq_ok _ _ _ _).1 hread₃ with ⟨rfl, rfl⟩
    exact .inContext first second _ _ _ _ (sound_name _ _ _ hfirst) hdot (sound_name _ _ _ hsecond)
  · rcases (pure_eq_ok _ _ _ _).1 hread₂ with ⟨rfl, rfl⟩
    exact .bare first _ _ (sound_name _ _ _ hfirst)

theorem complete_tag : Complete tag TagName (· ≠ some '.') := by
  intro c t rest h hfollow
  cases h with
  | bare first _ _ hfirst =>
      rcases complete_name c first rest hfirst trivial with ⟨d, hd, rfl⟩
      exact ⟨d, (bind_of_ok hd).trans (bind_of_ok (markIfNext_of_ne hfollow)), rfl⟩
  | inContext context second _ middle behind _ hcontext hdot hsecond =>
      rcases complete_name c context middle hcontext trivial with ⟨c₁, hc₁, rfl⟩
      rcases complete_name ⟨c₁.ahead, behind⟩ second rest hsecond trivial with ⟨d, hd, rfl⟩
      have hdot' := markIfNext_of_mark (by decide) hdot
      exact ⟨d, (bind_of_ok hc₁).trans ((bind_of_ok hdot').trans (bind_of_ok hd)), rfl⟩

section Lists

variable {thing : Reader α} {R : α → List Char → List Char → Prop}

theorem sound_listFrom (h : Sound thing R) (n : Nat) : Sound (listFrom thing n) (Listed R) := by
  induction n with
  -- A list that runs out of fuel is not read at all.
  | zero => exact fun _ _ _ h => absurd h nofun
  | succ n ih =>
      intro c xs d hread
      rcases (bind_eq_ok _ _ _ _ _).1 hread with ⟨x, c₁, hx, hread₁⟩
      rcases (bind_eq_ok _ _ _ _ _).1 hread₁ with ⟨goesOn, c₂, hgoesOn, hread₂⟩
      rcases mark_of_markIfNext (by decide) hgoesOn with ⟨rfl, hcomma⟩ | ⟨rfl, rfl⟩
      · rcases (bind_eq_ok _ _ _ _ _).1 hread₂ with ⟨more, c₃, hmore, hread₃⟩
        rcases (pure_eq_ok _ _ _ _).1 hread₃ with ⟨rfl, rfl⟩
        exact .more x more _ _ _ _ (h _ _ _ hx) hcomma (ih _ _ _ hmore)
      · rcases (bind_eq_ok _ _ _ _ _).1 hread₂ with ⟨_, c₃, hclose, hread₃⟩
        rcases (pure_eq_ok _ _ _ _).1 hread₃ with ⟨rfl, rfl⟩
        exact .last x _ _ _ (h _ _ _ hx) (sound_mark (by decide) _ _ _ hclose)

theorem complete_listFrom (h : Complete thing R fun o => o = some ',' ∨ o = some ')')
    {xs : List α} {cs rest : List Char} (hlist : Listed R xs cs rest) (n : Nat)
    (hn : xs.length ≤ n) (c : Cursor) (hc : c.rest = cs) :
    ∃ d, listFrom thing n c = .ok (xs, d) ∧ d.rest = rest := by
  induction hlist generalizing n c with
  | last x cs middle rest hx hclose =>
      subst hc
      cases n with
      | zero => exact absurd hn (Nat.not_succ_le_zero 0)
      | succ n =>
          have hnext : Spelling.next? middle = some ')' := hclose.next? (by decide)
          rcases h c x middle hx (Or.inr hnext) with ⟨c₁, hc₁, rfl⟩
          rcases complete_mark (by decide) c₁ () rest hclose trivial with ⟨d, hd, rfl⟩
          -- The parenthesis is no comma, so the reader goes on to it.
          have hcomma : markIfNext ',' c₁ = .ok (false, c₁) := markIfNext_of_ne (by
            rw [hnext]
            decide)
          exact ⟨d, (bind_of_ok hc₁).trans ((bind_of_ok hcomma).trans (bind_of_ok hd)), rfl⟩
  | more x xs cs middle behind rest hx hcomma hxs ih =>
      subst hc
      cases n with
      | zero => exact absurd hn (Nat.not_succ_le_zero _)
      | succ n =>
          rcases h c x middle hx (Or.inl (hcomma.next? (by decide))) with ⟨c₁, hc₁, rfl⟩
          rcases ih n (Nat.le_of_succ_le_succ hn) ⟨c₁.ahead, behind⟩ rfl with ⟨d, hd, rfl⟩
          have hcomma' := markIfNext_of_mark (by decide) hcomma
          exact ⟨d, (bind_of_ok hc₁).trans ((bind_of_ok hcomma').trans (bind_of_ok hd)), rfl⟩

theorem sound_parenthesized (h : Sound thing R) :
    Sound (parenthesized thing) (Parenthesized R) := by
  intro c xs d hread
  rcases (bind_eq_ok _ _ _ _ _).1 hread with ⟨opened, c₁, hopened, hread₁⟩
  rcases mark_of_markIfNext (by decide) hopened with ⟨rfl, hopen⟩ | ⟨rfl, rfl⟩
  · rcases (bind_eq_ok _ _ _ _ _).1 hread₁ with ⟨closed, c₂, hclosed, hread₂⟩
    rcases mark_of_markIfNext (by decide) hclosed with ⟨rfl, hclose⟩ | ⟨rfl, rfl⟩
    · rcases (pure_eq_ok _ _ _ _).1 hread₂ with ⟨rfl, rfl⟩
      exact .empty _ _ _ hopen hclose
    · exact .listed xs _ _ _ hopen (sound_listFrom h _ _ _ _ hread₂)
  · rcases (pure_eq_ok _ _ _ _).1 hread₁ with ⟨rfl, rfl⟩
    exact .omitted _

theorem complete_parenthesized (h : Complete thing R fun o => o = some ',' ∨ o = some ')')
    (hlt : ∀ x cs rest, R x cs rest → rest.length < cs.length)
    (hfirst : ∀ x cs rest, R x cs rest → Spelling.next? cs ≠ some ')') :
    Complete (parenthesized thing) (Parenthesized R) (· ≠ some '(') := by
  intro c xs rest hxs hfollow
  cases hxs with
  | omitted => exact ⟨c, bind_of_ok (markIfNext_of_ne hfollow), rfl⟩
  | empty _ middle _ hopen hclose =>
      have hopen' := markIfNext_of_mark (by decide) hopen
      have hclose' : markIfNext ')' ⟨c.ahead, middle⟩ = _ := markIfNext_of_mark (by decide) hclose
      exact ⟨_, (bind_of_ok hopen').trans (bind_of_ok hclose'), rfl⟩
  | listed _ _ middle _ hopen hlist =>
      have hopen' := markIfNext_of_mark (by decide) hopen
      have hclose : markIfNext ')' ⟨c.ahead, middle⟩ = _ := markIfNext_of_ne (hlist.next?_ne hfirst)
      -- Each thing has characters of its own, so their number is fuel enough.
      have hn : xs.length ≤ middle.length + 1 := by
        have := hlist.length_lt hlt
        omega
      rcases complete_listFrom h hlist _ hn ⟨c.ahead, middle⟩ rfl with ⟨d, hd, rfl⟩
      exact ⟨d, (bind_of_ok hopen').trans ((bind_of_ok hclose).trans hd), rfl⟩

theorem manyFrom_succ (starts : Char → Bool) (thing : Reader α) (n : Nat) (c : Cursor) :
    manyFrom starts thing (n + 1) c =
      (if (Spelling.next? c.rest).any starts = true then
        (do
          let x ← thing
          return x :: (← manyFrom starts thing n))
      else return [] : Reader (List α)) c := by
  have hany : ∀ o : Option Char, (o.map starts).getD false = o.any starts := by
    intro o
    cases o with
    | none => rfl
    | some first => rfl
  rw [← hany]
  rfl

theorem sound_manyFrom (starts : Char → Bool) (h : Sound thing R) (n : Nat) :
    Sound (manyFrom starts thing n) (Many R) := by
  induction n with
  -- A loop that runs out of fuel has read nothing, which is spelled as well.
  | zero =>
      intro c xs d hread
      rcases (pure_eq_ok _ _ _ _).1 hread with ⟨rfl, rfl⟩
      exact .nil _
  | succ n ih =>
      intro c xs d hread
      rw [manyFrom_succ] at hread
      split at hread
      · rcases (bind_eq_ok _ _ _ _ _).1 hread with ⟨x, c₁, hx, hread₁⟩
        rcases (bind_eq_ok _ _ _ _ _).1 hread₁ with ⟨more, c₂, hmore, hread₂⟩
        rcases (pure_eq_ok _ _ _ _).1 hread₂ with ⟨rfl, rfl⟩
        exact .cons x more _ _ _ (h _ _ _ hx) (ih _ _ _ hmore)
      · rcases (pure_eq_ok _ _ _ _).1 hread with ⟨rfl, rfl⟩
        exact .nil _

/-- A loop reads all things if each of them starts like one, and what follows does
    not. -/
theorem complete_manyFrom {starts : Char → Bool} {follow : Option Char → Prop}
    (h : Complete thing R follow)
    (hstarts : ∀ x cs rest, R x cs rest → (Spelling.next? cs).any starts = true)
    (hfollow : ∀ o : Option Char, o.any starts = true → follow o)
    {xs : List α} {cs rest : List Char} (hmany : Many R xs cs rest)
    (hend : (Spelling.next? rest).any starts = false) (hrest : follow (Spelling.next? rest))
    (n : Nat) (hn : xs.length ≤ n) (c : Cursor) (hc : c.rest = cs) :
    ∃ d, manyFrom starts thing n c = .ok (xs, d) ∧ d.rest = rest := by
  induction hmany generalizing n c with
  | nil cs =>
      subst hc
      cases n with
      | zero => exact ⟨c, rfl, rfl⟩
      | succ n =>
          refine ⟨c, ?_, rfl⟩
          rw [manyFrom_succ, hend, if_neg Bool.false_ne_true]
          rfl
  | cons x xs cs middle rest hx hxs ih =>
      subst hc
      cases n with
      | zero => exact absurd hn (Nat.not_succ_le_zero _)
      | succ n =>
          -- What follows the first thing is another one, or the end of them all.
          have hnext : follow (Spelling.next? middle) := by
            cases hxs with
            | nil => exact hrest
            | cons y _ _ behind _ hy _ => exact hfollow _ (hstarts y middle behind hy)
          rcases h c x middle hx hnext with ⟨c₁, hc₁, rfl⟩
          rcases ih hend hrest n (Nat.le_of_succ_le_succ hn) c₁ rfl with ⟨d, hd, rfl⟩
          refine ⟨d, ?_, rfl⟩
          rw [manyFrom_succ, if_pos (hstarts x _ _ hx)]
          exact (bind_of_ok hc₁).trans (bind_of_ok hd)

end Lists

theorem complete_arguments :
    Complete (parenthesized quoted) (Parenthesized Quoted) (· ≠ some '(') := by
  refine complete_parenthesized (fun c s rest h _ => complete_quoted c s rest h trivial)
    (fun _ _ _ => Quoted.length_lt) ?_
  intro s cs rest h
  rw [h.next?]
  decide

/-- What follows the first word of a watcher is read as that word says. -/
theorem complete_watcherAfter {form : WatcherForm} {cs rest : List Char}
    (h : WatcherText form cs rest) (hfollow : Spelling.next? rest ≠ some '(') :
    ∃ word middle, Word word cs middle ∧ (word = "as" ∨ ∃ args, form = .filter word args) ∧
      ∀ c : Cursor, c.rest = middle → ∃ d, watcherAfter word c = .ok (form, d) ∧ d.rest = rest := by
  cases h with
  | capture key _ middle _ has hkey =>
      refine ⟨"as", middle, has, Or.inl rfl, ?_⟩
      rintro c rfl
      rcases complete_name c key rest hkey trivial with ⟨d, hd, rfl⟩
      exact ⟨d, bind_of_ok hd, rfl⟩
  | filter name args _ middle _ hname hne hargs =>
      refine ⟨name, middle, hname, Or.inr ⟨args, rfl⟩, ?_⟩
      rintro c rfl
      rcases complete_arguments c args rest hargs hfollow with ⟨d, hd, rfl⟩
      refine ⟨d, ?_, rfl⟩
      -- Any word but the capture word names a filter.
      rw [watcherAfter, if_neg hne]
      exact bind_of_ok hd

theorem complete_watcher :
    Complete (do watcherAfter (← name)) WatcherText (· ≠ some '(') := by
  intro c form rest h hfollow
  rcases complete_watcherAfter h hfollow with ⟨word, middle, hword, _, hafter⟩
  rcases complete_name c word middle hword trivial with ⟨c₁, hc₁, rfl⟩
  rcases hafter c₁ rfl with ⟨d, hd, rfl⟩
  exact ⟨d, (bind_of_ok hc₁).trans hd, rfl⟩

theorem sound_watcher : Sound (do watcherAfter (← name)) WatcherText := by
  intro c form d hread
  rcases (bind_eq_ok _ _ _ _ _).1 hread with ⟨word, c₁, hword, hread₁⟩
  unfold watcherAfter at hread₁
  split at hread₁
  · rename_i hcapture
    subst hcapture
    rcases (bind_eq_ok _ _ _ _ _).1 hread₁ with ⟨key, c₂, hkey, hread₂⟩
    rcases (pure_eq_ok _ _ _ _).1 hread₂ with ⟨rfl, rfl⟩
    exact .capture key _ _ _ (sound_name _ _ _ hword) (sound_name _ _ _ hkey)
  · rename_i hne
    rcases (bind_eq_ok _ _ _ _ _).1 hread₁ with ⟨args, c₂, hargs, hread₂⟩
    rcases (pure_eq_ok _ _ _ _).1 hread₂ with ⟨rfl, rfl⟩
    exact .filter word args _ _ _ (sound_name _ _ _ hword) hne
      (sound_parenthesized sound_quoted _ _ _ hargs)

theorem sound_watchers : Sound watchers (Many WatcherText) :=
  fun c => sound_manyFrom Token.isNameStart sound_watcher (c.rest.length + 1) c

theorem sound_hashtags : Sound hashtags (Many Label) :=
  fun c => sound_manyFrom (· == '#') sound_hashtag (c.rest.length + 1) c

/-- Watchers are read up to what starts no name, and opens no arguments of the last
    one. -/
theorem complete_watchers : Complete watchers (Many WatcherText)
    fun o => o ≠ some '(' ∧ o.any Token.isNameStart = false := by
  rintro c ws rest hws ⟨hparenthesis, hend⟩
  have hn : ws.length ≤ c.rest.length + 1 := by
    have := hws.length_le fun _ _ _ => WatcherText.length_lt
    omega
  exact complete_manyFrom complete_watcher (fun _ _ _ => WatcherText.next?)
    (fun _ => ne_of_isNameStart (by decide)) hws hend hparenthesis _ hn c rfl

theorem complete_hashtags : Complete hashtags (Many Label) (· ≠ some '#') := by
  intro c labels rest hlabels hend
  have hn : labels.length ≤ c.rest.length + 1 := by
    have := hlabels.length_le fun _ _ _ => Label.length_lt
    omega
  have hstarts : ∀ l cs rest, Label l cs rest → (Spelling.next? cs).any (· == '#') = true := by
    intro l cs rest h
    rw [h.next?]
    rfl
  have hend' : (Spelling.next? rest).any (· == '#') = false := by
    cases hnext : Spelling.next? rest with
    | none => rfl
    | some x => exact beq_false_of_ne fun hx => hend (by rw [hnext, hx])
  exact complete_manyFrom complete_hashtag hstarts (fun _ _ => trivial) hlabels hend' trivial
    _ hn c rfl

theorem sound_bracket : Sound bracket Bracket := by
  intro c item d hread
  rcases (bind_eq_ok _ _ _ _ _).1 hread with ⟨isLookup, c₁, hisLookup, hread₁⟩
  -- An equals sign tells look-ups and references apart.
  rcases mark_of_markIfNext (by decide) hisLookup with ⟨rfl, hmark⟩ | ⟨rfl, rfl⟩
  · rcases (bind_eq_ok _ _ _ _ _).1 hread₁ with ⟨key, c₂, hkey, hread₂⟩
    rcases (bind_eq_ok _ _ _ _ _).1 hread₂ with ⟨ws, c₃, hws, hread₃⟩
    rcases (bind_eq_ok _ _ _ _ _).1 hread₃ with ⟨_, c₄, hclose, hread₄⟩
    rcases (pure_eq_ok _ _ _ _).1 hread₄ with ⟨rfl, rfl⟩
    exact .lookup key ws _ _ _ _ _ hmark (sound_name _ _ _ hkey) (sound_watchers _ _ _ hws)
      (sound_mark (by decide) _ _ _ hclose)
  · rcases (bind_eq_ok _ _ _ _ _).1 hread₁ with ⟨tag, c₂, htag, hread₂⟩
    rcases (bind_eq_ok _ _ _ _ _).1 hread₂ with ⟨labels, c₃, hlabels, hread₃⟩
    rcases (bind_eq_ok _ _ _ _ _).1 hread₃ with ⟨ws, c₄, hws, hread₄⟩
    rcases (bind_eq_ok _ _ _ _ _).1 hread₄ with ⟨_, c₅, hclose, hread₅⟩
    rcases (pure_eq_ok _ _ _ _).1 hread₅ with ⟨rfl, rfl⟩
    exact .reference tag labels ws _ _ _ _ _ (sound_tag _ _ _ htag) (sound_hashtags _ _ _ hlabels)
      (sound_watchers _ _ _ hws) (sound_mark (by decide) _ _ _ hclose)

/-- Watchers and a closing bracket start with a name or with the bracket. -/
theorem next?_watchers_ne {m : Char} (hm : Token.isNameStart m = false) (hne : m ≠ ']')
    {ws : List WatcherForm} {cs last rest : List Char} (hws : Many WatcherText ws cs last)
    (hclose : Mark ']' last rest) : Spelling.next? cs ≠ some m := by
  cases hws with
  | nil =>
      rw [hclose.next? (by decide)]
      exact fun h => hne (Option.some.inj h).symm
  | cons w ws _ middle _ hw hws => exact ne_of_isNameStart hm hw.next?

theorem complete_watchers_close {ws : List WatcherForm} {last rest : List Char} {c : Cursor}
    (hws : Many WatcherText ws c.rest last) (hclose : Mark ']' last rest) :
    ∃ c₁ d, watchers c = .ok (ws, c₁) ∧ mark ']' c₁ = .ok ((), d) ∧ d.rest = rest := by
  have hnext : Spelling.next? last = some ']' := hclose.next? (by decide)
  rcases complete_watchers c ws last hws (by rw [hnext]; decide) with ⟨c₁, hc₁, rfl⟩
  rcases complete_mark (by decide) c₁ () rest hclose trivial with ⟨d, hd, rfl⟩
  exact ⟨c₁, d, hc₁, hd, rfl⟩

theorem complete_bracket : Complete bracket Bracket fun _ => True := by
  intro c form rest h _
  cases h with
  | lookup key ws _ behind middle last _ hmark hkey hws hclose =>
      have hmark' := markIfNext_of_mark (by decide) hmark
      rcases complete_name ⟨c.ahead, behind⟩ key middle hkey trivial with ⟨c₂, hc₂, rfl⟩
      rcases complete_watchers_close hws hclose with ⟨c₃, d, hc₃, hd, rfl⟩
      exact ⟨d, (bind_of_ok hmark').trans ((bind_of_ok hc₂).trans ((bind_of_ok hc₃).trans
        (bind_of_ok hd))), rfl⟩
  | reference tag labels ws _ behind middle last _ htag hlabels hws hclose =>
      have hno : markIfNext '=' c = .ok (false, c) :=
        markIfNext_of_ne (ne_of_isNameStart (by decide) htag.next?)
      -- Behind the tag comes a label, a watcher or the closing bracket, and no dot.
      have hdot : Spelling.next? behind ≠ some '.' := by
        cases hlabels with
        | nil => exact next?_watchers_ne (by decide) (by decide) hws hclose
        | cons l labels _ _ _ hl hlabels =>
            rw [hl.next?]
            decide
      rcases complete_tag c tag behind htag hdot with ⟨c₁, hc₁, rfl⟩
      rcases complete_hashtags c₁ labels middle hlabels
        (next?_watchers_ne (by decide) (by decide) hws hclose) with ⟨c₂, hc₂, rfl⟩
      rcases complete_watchers_close hws hclose with ⟨c₃, d, hc₃, hd, rfl⟩
      exact ⟨d, (bind_of_ok hno).trans ((bind_of_ok hc₁).trans ((bind_of_ok hc₂).trans
        ((bind_of_ok hc₃).trans (bind_of_ok hd)))), rfl⟩

end Reader

end TextGrammar
