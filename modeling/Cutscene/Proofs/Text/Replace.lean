import Cutscene.Proofs.Text.Pieces
import Mathlib.Data.List.Basic

/-!
# Replacing words one after another

A text that marks stand in is a list of letters and marks (`pieces`), and each mark can be given
something else to stand there (`render`). To replace the word of a mark throughout the text gives
that mark, and nothing else, another value, as long as the text has no more of these words than its
marks of that kind (`replaceChars_render`).

Words in brackets (`Bracketed`) neither overlap nor begin alike, so the marks of a text are all that
it has of them (`occurrences_eq_count`), in whatever order one looks for them (`pieces_perm`). Where
no bracket is opened inside another, no such word ever comes up across the border of a value, and a
replacement is made within each value (`replaceChars_render_of_brackets`).
-/

namespace Cutscene.Text

/-- The number of places in a text where a word begins. -/
def occurrences (word : List Char) : List Char → Nat
  | [] => 0
  | c :: rest => (if word.isPrefixOf (c :: rest) then 1 else 0) + occurrences word rest

/-- A letter of a text, or a mark in it. -/
inductive Piece (α : Type) where
  | letter (c : Char)
  | mark (a : α)
deriving DecidableEq

/-- The text of letters and marks, in which a mark stands for a value. -/
def render {α : Type} (value : α → List Char) : List (Piece α) → List Char
  | [] => []
  | .letter c :: rest => c :: render value rest
  | .mark a :: rest => value a ++ render value rest

/-- `pieces` while `skip` characters of the word of a mark are still to be passed. -/
def piecesFrom {α : Type} (word : α → List Char) (marks : List α) : Nat → List Char → List (Piece α)
  | _, [] => []
  | skip + 1, _ :: rest => piecesFrom word marks skip rest
  | 0, c :: rest =>
    match marks.find? fun a => (word a).isPrefixOf (c :: rest) with
    | some a => .mark a :: piecesFrom word marks ((word a).length - 1) rest
    | none => .letter c :: piecesFrom word marks 0 rest

/-- The letters and marks of a text: wherever the word of a mark begins there is that mark. -/
def pieces {α : Type} (word : α → List Char) (marks : List α) (cs : List Char) : List (Piece α) :=
  piecesFrom word marks 0 cs

/-! ### One word -/

section Word

variable {word sub a b rest : List Char} {c : Char}

theorem replaceFrom_append (passed rest : List Char) :
    replaceFrom word sub passed.length (passed ++ rest) = replaceFrom word sub 0 rest := by
  induction passed with
  | nil => rfl
  | cons c passed ih => exact ih

theorem replaceChars_word_append (hne : word ≠ []) :
    replaceChars word sub (word ++ rest) = sub ++ replaceChars word sub rest := by
  cases word with
  | nil => exact absurd rfl hne
  | cons c tail =>
    have hbegins : (c :: tail).isPrefixOf (c :: (tail ++ rest)) = true :=
      List.isPrefixOf_iff_prefix.mpr (List.prefix_append (c :: tail) rest)
    rw [replaceChars, List.cons_append, replaceFrom, if_pos hbegins]
    exact congrArg (sub ++ ·) (replaceFrom_append tail rest)

theorem replaceChars_word (hne : word ≠ []) : replaceChars word sub word = sub := by
  have hall : replaceChars word sub (word ++ []) = sub ++ [] := replaceChars_word_append hne
  rw [List.append_nil, List.append_nil] at hall
  exact hall

theorem replaceChars_cons (h : ¬ word <+: c :: rest) :
    replaceChars word sub (c :: rest) = c :: replaceChars word sub rest := by
  rw [replaceChars, replaceFrom, if_neg (mt List.isPrefixOf_iff_prefix.mp h)]
  rfl

theorem occurrences_cons_pos (h : word <+: c :: rest) :
    occurrences word (c :: rest) = 1 + occurrences word rest := by
  rw [occurrences, if_pos (List.isPrefixOf_iff_prefix.mpr h)]

theorem occurrences_cons_neg (h : ¬ word <+: c :: rest) :
    occurrences word (c :: rest) = occurrences word rest := by
  rw [occurrences, if_neg (mt List.isPrefixOf_iff_prefix.mp h), Nat.zero_add]

theorem occurrences_le_cons : occurrences word rest ≤ occurrences word (c :: rest) :=
  Nat.le_add_left ..

theorem occurrences_le_append (a : List Char) :
    occurrences word rest ≤ occurrences word (a ++ rest) := by
  induction a with
  | nil => exact Nat.le_refl _
  | cons c a ih => exact Nat.le_trans ih occurrences_le_cons

theorem occurrences_lt_word_append (hne : word ≠ []) :
    occurrences word rest < occurrences word (word ++ rest) := by
  cases hword : word with
  | nil => exact absurd hword hne
  | cons c tail =>
    have hbegins : c :: tail <+: c :: (tail ++ rest) := List.prefix_append (c :: tail) rest
    rw [List.cons_append, occurrences_cons_pos hbegins]
    have hle : occurrences (c :: tail) rest ≤ occurrences (c :: tail) (tail ++ rest) :=
      occurrences_le_append tail
    omega

/-- What comes before all places where the word begins stays. -/
theorem replaceChars_append (h : occurrences word (a ++ rest) ≤ occurrences word rest) :
    replaceChars word sub (a ++ rest) = a ++ replaceChars word sub rest := by
  induction a with
  | nil => rfl
  | cons c a ih =>
    have hle : occurrences word rest ≤ occurrences word (a ++ rest) := occurrences_le_append a
    have hnot : ¬ word <+: c :: (a ++ rest) := by
      intro hbegins
      rw [List.cons_append, occurrences_cons_pos hbegins] at h
      omega
    rw [List.cons_append, occurrences_cons_neg hnot] at h
    rw [List.cons_append, replaceChars_cons hnot, ih h, List.cons_append]

theorem replaceChars_eq_self (h : occurrences word a = 0) : replaceChars word sub a = a := by
  have hnil : occurrences word (a ++ []) ≤ occurrences word [] := by
    rw [List.append_nil, h]
    exact Nat.zero_le _
  have hall : replaceChars word sub (a ++ []) = a ++ replaceChars word sub [] :=
    replaceChars_append hnil
  rw [List.append_nil] at hall
  exact hall.trans (List.append_nil a)

end Word

/-- Values count only for the marks that there are. -/
theorem render_congr {α : Type} {value value' : α → List Char} {ps : List (Piece α)}
    (h : ∀ a, .mark a ∈ ps → value a = value' a) : render value ps = render value' ps := by
  induction ps with
  | nil => rfl
  | cons p rest ih =>
    have hrest := ih fun a ha => h a (List.mem_cons_of_mem p ha)
    cases p with
    | letter c => rw [render, render, hrest]
    | mark a => rw [render, render, hrest, h a List.mem_cons_self]

/-! ### Giving one mark a value -/

section Marks

variable {α : Type} [DecidableEq α] {value : α → List Char} {a : α} {sub : List Char}
  {ps : List (Piece α)}

theorem count_le_occurrences (hne : value a ≠ []) :
    ps.count (.mark a) ≤ occurrences (value a) (render value ps) := by
  induction ps with
  | nil => exact Nat.le_refl 0
  | cons p rest ih =>
    cases p with
    | letter c =>
      rw [List.count_cons_of_ne (by simp)]
      exact Nat.le_trans ih occurrences_le_cons
    | mark b =>
      rw [render]
      by_cases hb : b = a
      · subst hb
        rw [List.count_cons_self]
        exact Nat.lt_of_le_of_lt ih (occurrences_lt_word_append hne)
      · rw [List.count_cons_of_ne (by simpa using hb)]
        exact Nat.le_trans ih (occurrences_le_append (value b))

/-- If a text has no more places where a mark's word begins than it has of these marks, then to
replace the word is to give the mark another value. -/
theorem replaceChars_render (hne : value a ≠ [])
    (h : occurrences (value a) (render value ps) ≤ ps.count (.mark a)) :
    replaceChars (value a) sub (render value ps) = render (Function.update value a sub) ps := by
  induction ps with
  | nil => rfl
  | cons p rest ih =>
    have hcount : rest.count (.mark a) ≤ occurrences (value a) (render value rest) :=
      count_le_occurrences hne
    cases p with
    | letter c =>
      rw [render, List.count_cons_of_ne (by simp)] at h
      -- A word that begins with this letter would be one too many.
      have hnot : ¬ value a <+: c :: render value rest := by
        intro hbegins
        rw [occurrences_cons_pos hbegins] at h
        omega
      rw [occurrences_cons_neg hnot] at h
      rw [render, replaceChars_cons hnot, ih h, render]
    | mark b =>
      rw [render] at h ⊢
      by_cases hb : b = a
      · subst hb
        rw [List.count_cons_self] at h
        have hlt : occurrences (value b) (render value rest) <
            occurrences (value b) (value b ++ render value rest) := occurrences_lt_word_append hne
        rw [replaceChars_word_append hne, ih (by omega), render, Function.update_self]
      · -- So would one that begins within the value of another mark.
        rw [List.count_cons_of_ne (by simpa using hb)] at h
        have hle : occurrences (value a) (render value rest) ≤
            occurrences (value a) (value b ++ render value rest) := occurrences_le_append (value b)
        rw [replaceChars_append (Nat.le_trans h hcount), ih (Nat.le_trans hle h), render,
          Function.update_of_ne hb]

end Marks

/-! ### Words in brackets -/

/-- A word in brackets. -/
def Bracketed (word : List Char) : Prop :=
  ∃ inner, word = '[' :: (inner ++ [']']) ∧ '[' ∉ inner ∧ ']' ∉ inner

namespace Bracketed

variable {word word' rest rest' : List Char}

theorem ne_nil (h : Bracketed word) : word ≠ [] := by
  obtain ⟨inner, rfl, -, -⟩ := h
  exact List.cons_ne_nil _ _

/-- Of words in brackets a text begins with one at most. -/
theorem eq_of_append_eq (h : Bracketed word) (h' : Bracketed word')
    (heq : word ++ rest = word' ++ rest') : word = word' := by
  obtain ⟨inner, rfl, -, hclose⟩ := h
  obtain ⟨inner', rfl, -, hclose'⟩ := h'
  have htails : inner ++ ']' :: rest = inner' ++ ']' :: rest' := by simpa using heq
  have hcut := congrArg (cutOnce ']') htails
  rw [cutOnce_append hclose, cutOnce_append hclose'] at hcut
  simp only [Option.some.injEq, Prod.mk.injEq] at hcut
  rw [hcut.1]

theorem not_prefix_cons (h : Bracketed word) {c : Char} (hc : c ≠ '[') : ¬ word <+: c :: rest := by
  obtain ⟨inner, rfl, -, -⟩ := h
  intro hbegins
  exact hc (List.cons_prefix_cons.mp hbegins).1.symm

theorem occurrences_append (h : Bracketed word) {a : List Char} (ha : '[' ∉ a) :
    occurrences word (a ++ rest) = occurrences word rest := by
  induction a with
  | nil => rfl
  | cons c a ih =>
    obtain ⟨hc, htail⟩ := not_or.mp (mt List.mem_cons.mpr ha)
    rw [List.cons_append, occurrences_cons_neg (h.not_prefix_cons (Ne.symm hc)), ih htail]

/-- Another word in brackets begins at its own beginning only, if it is the same. -/
theorem occurrences_word_append (h : Bracketed word) (h' : Bracketed word') :
    occurrences word (word' ++ rest) =
      (if word = word' then 1 else 0) + occurrences word rest := by
  have hsame : word <+: word' ++ rest ↔ word = word' := by
    constructor
    · intro hbegins
      obtain ⟨more, hmore⟩ := hbegins
      exact h.eq_of_append_eq h' hmore
    · rintro rfl
      exact List.prefix_append word rest
  obtain ⟨inner, rfl, hopen, -⟩ := h'
  -- Past its first character there is no bracket to begin with.
  have htail : '[' ∉ inner ++ [']'] := by simpa using hopen
  rw [List.cons_append] at hsame ⊢
  split_ifs with heq
  · rw [occurrences_cons_pos (hsame.mpr heq), h.occurrences_append htail]
  · rw [occurrences_cons_neg (mt hsame.mp heq), h.occurrences_append htail, Nat.zero_add]

theorem occurrences_eq_zero (h : Bracketed word) (h' : Bracketed word') (hne : word ≠ word') :
    occurrences word word' = 0 := by
  have hall : occurrences word (word' ++ []) = 0 + 0 := by
    rw [h.occurrences_word_append h', if_neg hne]
    rfl
  rw [List.append_nil] at hall
  exact hall

end Bracketed

/-! ### The marks of a text -/

/-- Every text can be read word by word, and letter by letter where no word begins. -/
theorem words_induction {words : List (List Char)} (hne : [] ∉ words) {motive : List Char → Prop}
    (nil : motive []) (word : ∀ w ∈ words, ∀ rest, motive rest → motive (w ++ rest))
    (letter : ∀ c rest, (∀ w ∈ words, ¬ w <+: c :: rest) → motive rest → motive (c :: rest))
    (cs : List Char) : motive cs := by
  -- A word is passed as a whole, so the induction is on the length of what is left.
  induction hlength : cs.length using Nat.strongRecOn generalizing cs with
  | ind length ih =>
    cases cs with
    | nil => exact nil
    | cons c tail =>
      by_cases hword : ∃ w ∈ words, w <+: c :: tail
      · obtain ⟨w, hw, rest, hrest⟩ := hword
        have hpos : 0 < w.length := by
          refine List.length_pos_iff.mpr ?_
          rintro rfl
          exact hne hw
        have hsum := congrArg List.length hrest
        rw [List.length_append] at hsum
        rw [← hrest]
        exact word w hw rest (ih rest.length (by omega) rest rfl)
      · refine letter c tail (fun w hw hbegins => hword ⟨w, hw, hbegins⟩) ?_
        refine ih tail.length ?_ tail rfl
        rw [← hlength, List.length_cons]
        exact Nat.lt_succ_self _

section Pieces

variable {α : Type} {word : α → List Char} {marks : List α}

theorem piecesFrom_append (passed rest : List Char) :
    piecesFrom word marks passed.length (passed ++ rest) = pieces word marks rest := by
  induction passed with
  | nil => rfl
  | cons c passed ih => exact ih

theorem pieces_cons {c : Char} {rest : List Char} (h : ∀ a ∈ marks, ¬ word a <+: c :: rest) :
    pieces word marks (c :: rest) = .letter c :: pieces word marks rest := by
  have hnone : marks.find? (fun a => (word a).isPrefixOf (c :: rest)) = none := by
    refine List.find?_eq_none.mpr fun a ha hbegins => h a ha ?_
    exact List.isPrefixOf_iff_prefix.mp hbegins
  rw [pieces, piecesFrom, hnone]
  rfl

variable (hmarks : ∀ a ∈ marks, Bracketed (word a))
  (hinj : ∀ a ∈ marks, ∀ b ∈ marks, word a = word b → a = b)

include hmarks in
theorem nil_not_mem_words : [] ∉ marks.map word := by
  intro hnil
  obtain ⟨a, ha, heq⟩ := List.mem_map.mp hnil
  exact (hmarks a ha).ne_nil heq

include hmarks hinj

theorem pieces_word_append {a : α} (ha : a ∈ marks) (rest : List Char) :
    pieces word marks (word a ++ rest) = .mark a :: pieces word marks rest := by
  obtain ⟨c, tail, hword⟩ := List.exists_cons_of_ne_nil (hmarks a ha).ne_nil
  have hfind : marks.find? (fun b => (word b).isPrefixOf (c :: (tail ++ rest))) = some a := by
    cases hfound : marks.find? (fun b => (word b).isPrefixOf (c :: (tail ++ rest))) with
    | none =>
      refine absurd ?_ (List.find?_eq_none.mp hfound a ha)
      rw [hword]
      exact List.isPrefixOf_iff_prefix.mpr (List.prefix_append (c :: tail) rest)
    | some b =>
      -- Both words begin the text, and in brackets only one does.
      have hb := List.mem_of_find?_eq_some hfound
      have hbegins := List.find?_some hfound
      obtain ⟨more, hmore⟩ := List.isPrefixOf_iff_prefix.mp hbegins
      rw [← List.cons_append, ← hword] at hmore
      rw [hinj b hb a ha ((hmarks b hb).eq_of_append_eq (hmarks a ha) hmore)]
  rw [hword, List.cons_append, pieces, piecesFrom, hfind]
  have hlength : (word a).length - 1 = tail.length := by
    rw [hword]
    rfl
  dsimp only
  rw [hlength, piecesFrom_append]

/-- A text is read as marks and letters: by `pieces`, in which each mark is one of the given. -/
theorem pieces_induction {motive : List Char → List (Piece α) → Prop} (nil : motive [] [])
    (mark : ∀ a ∈ marks, ∀ rest, motive rest (pieces word marks rest) →
      motive (word a ++ rest) (.mark a :: pieces word marks rest))
    (letter : ∀ c rest, (∀ a ∈ marks, ¬ word a <+: c :: rest) →
      motive rest (pieces word marks rest) →
      motive (c :: rest) (.letter c :: pieces word marks rest))
    (cs : List Char) : motive cs (pieces word marks cs) := by
  refine words_induction (motive := fun cs => motive cs (pieces word marks cs))
    (nil_not_mem_words hmarks) nil ?_ ?_ cs
  · intro w hw rest ih
    obtain ⟨a, ha, rfl⟩ := List.mem_map.mp hw
    rw [pieces_word_append hmarks hinj ha]
    exact mark a ha rest ih
  · intro c rest hnot ih
    have hnot' : ∀ a ∈ marks, ¬ word a <+: c :: rest := fun a ha =>
      hnot (word a) (List.mem_map_of_mem ha)
    rw [pieces_cons hnot']
    exact letter c rest hnot' ih

/-- The pieces make up the text. -/
theorem render_pieces (cs : List Char) : render word (pieces word marks cs) = cs := by
  refine pieces_induction (motive := fun cs ps => render word ps = cs) hmarks hinj rfl ?_ ?_ cs
  · intro a _ rest ih
    rw [render, ih]
  · intro c rest _ ih
    rw [render, ih]

theorem mem_of_mark_mem_pieces {a : α} {cs : List Char} (h : .mark a ∈ pieces word marks cs) :
    a ∈ marks := by
  revert h
  refine pieces_induction (motive := fun _ ps => .mark a ∈ ps → a ∈ marks) hmarks hinj ?_ ?_ ?_ cs
  · exact fun h => absurd h List.not_mem_nil
  · intro b hb rest ih hmem
    rcases List.mem_cons.mp hmem with heq | hmem
    · obtain rfl := Piece.mark.inj heq
      exact hb
    · exact ih hmem
  · intro c rest _ ih hmem
    rcases List.mem_cons.mp hmem with heq | hmem
    · exact absurd heq (by simp)
    · exact ih hmem

/-- A text has as many of a mark as it has places where its word begins. -/
theorem occurrences_eq_count [DecidableEq α] {a : α} (ha : a ∈ marks) (cs : List Char) :
    occurrences (word a) cs = (pieces word marks cs).count (.mark a) := by
  refine pieces_induction (motive := fun cs ps => occurrences (word a) cs = ps.count (.mark a))
    hmarks hinj rfl ?_ ?_ cs
  · intro b hb rest ih
    rw [(hmarks a ha).occurrences_word_append (hmarks b hb), ih]
    by_cases hab : b = a
    · rw [hab, if_pos rfl, List.count_cons_self, Nat.add_comm]
    · have hwords : word a ≠ word b := fun heq => hab (hinj b hb a ha heq.symm)
      rw [if_neg hwords, List.count_cons_of_ne (by simpa using hab), Nat.zero_add]
  · intro c rest hnot ih
    rw [occurrences_cons_neg (hnot a ha), ih, List.count_cons_of_ne (by simp)]

/-- It does not matter in which order the marks are looked for. -/
theorem pieces_perm {marks' : List α} (hperm : marks'.Perm marks) (cs : List Char) :
    pieces word marks' cs = pieces word marks cs := by
  have hmarks' : ∀ a ∈ marks', Bracketed (word a) := fun a ha => hmarks a (hperm.mem_iff.mp ha)
  have hinj' : ∀ a ∈ marks', ∀ b ∈ marks', word a = word b → a = b := fun a ha b hb =>
    hinj a (hperm.mem_iff.mp ha) b (hperm.mem_iff.mp hb)
  refine pieces_induction (motive := fun cs ps => pieces word marks' cs = ps) hmarks hinj rfl ?_ ?_
    cs
  · intro a ha rest ih
    rw [pieces_word_append hmarks' hinj' (hperm.mem_iff.mpr ha), ih]
  · intro c rest hnot ih
    rw [pieces_cons fun a ha => hnot a (hperm.mem_iff.mp ha), ih]

end Pieces

/-! ### Brackets that are not nested -/

/-- Whether a bracket is open after a text, if one was (or was not) before; there is no answer where
a bracket is opened inside another. -/
def openAfter? : Bool → List Char → Option Bool
  | isOpen, [] => some isOpen
  | isOpen, c :: rest =>
    if c = '[' then if isOpen then none else openAfter? true rest
    else openAfter? (isOpen && c ≠ ']') rest

section Brackets

variable {isOpen : Bool} {word sub a : List Char}

theorem openAfter?_append (a b : List Char) :
    openAfter? isOpen (a ++ b) = (openAfter? isOpen a).bind (openAfter? · b) := by
  induction a generalizing isOpen with
  | nil => rfl
  | cons c a ih =>
    rw [List.cons_append, openAfter?, openAfter?]
    split_ifs
    · rfl
    · exact ih
    · exact ih

theorem openAfter?_of_not_mem (hopen : '[' ∉ a) (hclose : ']' ∉ a) :
    openAfter? isOpen a = some isOpen := by
  induction a with
  | nil => rfl
  | cons c a ih =>
    obtain ⟨hc, hopen⟩ := not_or.mp (mt List.mem_cons.mpr hopen)
    obtain ⟨hc', hclose⟩ := not_or.mp (mt List.mem_cons.mpr hclose)
    rw [openAfter?, if_neg (Ne.symm hc), decide_eq_true (Ne.symm hc'), Bool.and_true]
    exact ih hopen hclose

namespace Bracketed

/-- A word in brackets opens and closes a bracket, so it does not stand inside another. -/
theorem openAfter?_eq (h : Bracketed word) :
    openAfter? isOpen word = if isOpen then none else some false := by
  obtain ⟨inner, rfl, hopen, hclose⟩ := h
  rw [openAfter?, if_pos rfl, openAfter?_append, openAfter?_of_not_mem hopen hclose]
  rfl

/-- In a text that leaves no bracket open no word in brackets begins that does not end there. -/
theorem prefix_of_prefix_append (h : Bracketed word) (ha : openAfter? isOpen a = some false)
    {rest : List Char} (hne : a ≠ []) (hbegins : word <+: a ++ rest) : word <+: a := by
  rcases List.prefix_or_prefix_of_prefix hbegins (List.prefix_append a rest) with hin | hout
  · exact hin
  · -- Otherwise the text is a part of the word, from its beginning on but without its end.
    obtain ⟨inner, rfl, hopen, hclose⟩ := h
    obtain ⟨c, tail, rfl⟩ := List.exists_cons_of_ne_nil hne
    obtain ⟨rfl, htail⟩ := List.cons_prefix_cons.mp hout
    rcases List.prefix_concat_iff.mp htail with heq | hinner
    · exact heq ▸ List.prefix_rfl
    · have hopen' : '[' ∉ tail := fun hmem => hopen (hinner.subset hmem)
      have hclose' : ']' ∉ tail := fun hmem => hclose (hinner.subset hmem)
      rw [openAfter?, if_pos rfl, openAfter?_of_not_mem hopen' hclose'] at ha
      cases isOpen <;> simp at ha

theorem not_nil_mem_singleton (h : Bracketed word) : [] ∉ [word] := by
  intro hnil
  exact h.ne_nil (List.mem_singleton.mp hnil).symm

/-- A text that leaves no bracket open has the word replaced on its own. -/
theorem replaceChars_append_of_closed (h : Bracketed word) (rest : List Char)
    (hclosed : openAfter? isOpen a = some false) :
    replaceChars word sub (a ++ rest) = replaceChars word sub a ++ replaceChars word sub rest := by
  induction a using words_induction h.not_nil_mem_singleton generalizing isOpen with
  | nil => rfl
  | word w hw more ih =>
    obtain rfl := List.mem_singleton.mp hw
    rw [openAfter?_append, h.openAfter?_eq] at hclosed
    cases isOpen with
    | true => exact absurd hclosed (by simp)
    | false =>
      rw [List.append_assoc, replaceChars_word_append h.ne_nil, replaceChars_word_append h.ne_nil,
        ih hclosed, List.append_assoc]
  | letter c more hnot ih =>
    have hnot := hnot word List.mem_cons_self
    have hnot' : ¬ word <+: c :: (more ++ rest) := fun hbegins =>
      hnot (h.prefix_of_prefix_append hclosed (List.cons_ne_nil c more) hbegins)
    have hmore : ∃ isOpen, openAfter? isOpen more = some false := by
      rw [openAfter?] at hclosed
      split_ifs at hclosed
      · exact ⟨true, hclosed⟩
      · exact ⟨_, hclosed⟩
    obtain ⟨isOpen, hmore⟩ := hmore
    rw [List.cons_append, replaceChars_cons hnot', ih hmore, replaceChars_cons hnot,
      List.cons_append]

/-- What takes the place of the word leaves no bracket open, so the text opens and closes what it
opened and closed before. -/
theorem openAfter?_replaceChars (h : Bracketed word) (hsub : openAfter? false sub = some false)
    {isOpen' : Bool} (hafter : openAfter? isOpen a = some isOpen') :
    openAfter? isOpen (replaceChars word sub a) = some isOpen' := by
  induction a using words_induction h.not_nil_mem_singleton generalizing isOpen with
  | nil => exact hafter
  | word w hw more ih =>
    obtain rfl := List.mem_singleton.mp hw
    rw [openAfter?_append, h.openAfter?_eq] at hafter
    cases isOpen with
    | true => exact absurd hafter (by simp)
    | false =>
      rw [replaceChars_word_append h.ne_nil, openAfter?_append, hsub]
      exact ih hafter
  | letter c more hnot ih =>
    rw [replaceChars_cons (hnot word List.mem_cons_self)]
    rw [openAfter?] at hafter ⊢
    split_ifs at hafter ⊢
    · exact ih hafter
    · exact ih hafter

end Bracketed

end Brackets

section Nested

variable {α : Type} {word value : α → List Char} {marks : List α}
  (hmarks : ∀ a ∈ marks, Bracketed (word a))
  (hinj : ∀ a ∈ marks, ∀ b ∈ marks, word a = word b → a = b)

include hmarks hinj

/-- Where a bracket is open no mark stands, so what comes up to its end is the text's own. -/
theorem prefix_of_prefix_render (cs : List Char) : ∀ inner, '[' ∉ inner → ']' ∉ inner →
    openAfter? true cs ≠ none → inner ++ [']'] <+: render value (pieces word marks cs) →
      inner ++ [']'] <+: cs := by
  refine pieces_induction (motive := fun cs ps => ∀ inner, '[' ∉ inner → ']' ∉ inner →
    openAfter? true cs ≠ none → inner ++ [']'] <+: render value ps → inner ++ [']'] <+: cs)
    hmarks hinj ?_ ?_ ?_ cs
  · exact fun _ _ _ _ hbegins => hbegins
  · intro a ha rest _ inner _ _ hafter _
    -- A mark would be a bracket inside the open one.
    refine absurd ?_ hafter
    rw [openAfter?_append, (hmarks a ha).openAfter?_eq]
    rfl
  · intro c rest _ ih inner hopen hclose hafter hbegins
    rw [render] at hbegins
    cases inner with
    | nil =>
      obtain ⟨rfl, -⟩ := List.cons_prefix_cons.mp hbegins
      exact List.cons_prefix_cons.mpr ⟨rfl, List.nil_prefix⟩
    | cons d inner =>
      obtain ⟨rfl, htail⟩ := List.cons_prefix_cons.mp hbegins
      obtain ⟨hd, hopen⟩ := not_or.mp (mt List.mem_cons.mpr hopen)
      obtain ⟨hd', hclose⟩ := not_or.mp (mt List.mem_cons.mpr hclose)
      rw [openAfter?, if_neg (Ne.symm hd), decide_eq_true (Ne.symm hd')] at hafter
      exact List.cons_prefix_cons.mpr ⟨rfl, ih inner hopen hclose hafter htail⟩

/-- In a text without nested brackets whose values leave no bracket open, the word of a mark is
replaced within each value. -/
theorem replaceChars_render_of_brackets {sub : List Char} {b : α} (hb : b ∈ marks)
    (hvalue : ∀ a ∈ marks, openAfter? false (value a) = some false) (cs : List Char) :
    ∀ isOpen, openAfter? isOpen cs ≠ none →
      replaceChars (word b) sub (render value (pieces word marks cs)) =
        render (fun a => replaceChars (word b) sub (value a)) (pieces word marks cs) := by
  refine pieces_induction (motive := fun cs ps => ∀ isOpen, openAfter? isOpen cs ≠ none →
    replaceChars (word b) sub (render value ps) =
      render (fun a => replaceChars (word b) sub (value a)) ps) hmarks hinj ?_ ?_ ?_ cs
  · exact fun _ _ => rfl
  · intro a ha rest ih isOpen hafter
    rw [openAfter?_append, (hmarks a ha).openAfter?_eq] at hafter
    cases isOpen with
    | true => exact absurd rfl hafter
    | false =>
      -- The value leaves no bracket open, so no word reaches from it into the rest.
      rw [render, (hmarks b hb).replaceChars_append_of_closed _ (hvalue a ha),
        ih false hafter, render]
  · intro c rest hnot ih isOpen hafter
    rw [openAfter?] at hafter
    have hnot' : ¬ word b <+: c :: render value (pieces word marks rest) := by
      intro hbegins
      -- The word would begin with this bracket, and so it would in the text itself.
      obtain ⟨inner, hword, hopen, hclose⟩ := hmarks b hb
      rw [hword] at hbegins
      obtain ⟨rfl, htail⟩ := List.cons_prefix_cons.mp hbegins
      rw [if_pos rfl] at hafter
      split_ifs at hafter with hisOpen
      · exact hafter rfl
      · refine hnot b hb ?_
        rw [hword]
        refine List.cons_prefix_cons.mpr ⟨rfl, ?_⟩
        exact prefix_of_prefix_render hmarks hinj rest inner hopen hclose hafter htail
    have hrest : ∃ isOpen, openAfter? isOpen rest ≠ none := by
      split_ifs at hafter
      · exact absurd rfl hafter
      · exact ⟨_, hafter⟩
      · exact ⟨_, hafter⟩
    obtain ⟨isOpen, hrest⟩ := hrest
    rw [render, replaceChars_cons hnot', ih isOpen hrest, render]

end Nested

end Cutscene.Text
