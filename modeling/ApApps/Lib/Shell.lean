import Mathlib

/- One command line of a POSIX shell.

   `lex` recognises the tokens of a line and removes the quoting, one byte at a time; each
   byte of a word knows whether it was quoted. `command` are the words the command is run
   with, after pathname expansion in a directory. Both are `none` where the line is not one
   simple command whose words stand in it: for an operator, an unquoted newline, a variable
   or a command to be substituted, a tilde, an assignment or a reserved word, or a quote
   that is not closed.

   `lex_single`: what is between single quotes is read as it is. `lex_quote_short`: a line
   that ends with a single quote yields fewer bytes than it has. -/
namespace Shell

abbrev Text := List UInt8

def byte (c : Char) : UInt8 := c.toNat.toUInt8

def bytes (s : String) : Text := s.toList.map byte

/-! ## Tokens -/

/-- A byte of a word. -/
structure Sym where
  char : UInt8
  quoted : Bool
  deriving DecidableEq

abbrev Word := List Sym

def plain (c : UInt8) : Sym := ⟨c, false⟩

def quoted (c : UInt8) : Sym := ⟨c, true⟩

def Word.text (w : Word) : Text := w.map Sym.char

/-- Where in the line a byte is. -/
inductive Context where
  /-- between two words -/
  | blank
  | word
  /-- after an unquoted backslash, in a word or between two -/
  | escaped (inWord : Bool)
  | single
  | double
  | doubleEscaped
  | comment
  deriving DecidableEq

inductive Next where
  | stop
  /-- these symbols are added to the word -/
  | go (ctx : Context) (out : List Sym)
  /-- the word ends -/
  | finish
  deriving DecidableEq

def newline : UInt8 := 10

def isBlank (c : UInt8) : Bool := c = byte ' ' || c = 9

/-- Operators, and what is replaced by something else. -/
def isSpecial (c : UInt8) : Bool := c = newline || (bytes ";&|<>()$\x60").contains c

/-- An unquoted byte of a word. -/
def nextUnquoted (inWord : Bool) (c : UInt8) : Next :=
  if c = byte '\'' then .go .single []
  else if c = byte '"' then .go .double []
  else if c = byte '\\' then .go (.escaped inWord) []
  else if isSpecial c then .stop
  else .go .word [plain c]

def next : Context → UInt8 → Next
  | .blank, c =>
    if isBlank c then .go .blank []
    else if c = byte '#' then .go .comment []
    else if c = byte '~' then .stop
    else nextUnquoted false c
  | .word, c => if isBlank c then .finish else nextUnquoted true c
  | .escaped inWord, c =>
    -- a backslash and a newline are both removed
    if c = newline then .go (if inWord then .word else .blank) [] else .go .word [quoted c]
  | .single, c => if c = byte '\'' then .go .word [] else .go .single [quoted c]
  | .double, c =>
    if c = byte '"' then .go .word []
    else if c = byte '\\' then .go .doubleEscaped []
    else if c = byte '$' ∨ c = byte '\x60' then .stop
    else .go .double [quoted c]
  | .doubleEscaped, c =>
    if c = newline then .go .double []
    else if (bytes "$\x60\"\\").contains c then .go .double [quoted c]
    else .go .double [quoted (byte '\\'), quoted c]
  | .comment, c => if c = newline then .stop else .go .comment []

/-- The words of the rest of a line, `w` being the beginning of the first. -/
def lex : Context → Word → Text → Option (List Word)
  | .blank, _, [] => some []
  | .comment, _, [] => some []
  | .word, w, [] => some [w]
  | _, _, [] => none
  | ctx, w, c :: s =>
    match next ctx c with
    | .stop => none
    | .go ctx' out => lex ctx' (w ++ out) s
    | .finish => (lex .blank [] s).map (w :: ·)

/-! ## The command -/

/-- The names in a directory a pattern matches. -/
structure Directory where
  matching : Word → List Text

def Word.isPattern (w : Word) : Bool := w.any fun y => !y.quoted && (bytes "*?[").contains y.char

/-- A pattern that matches nothing stands for itself. -/
def Directory.expand (dir : Directory) (w : Word) : List Text :=
  if w.isPattern ∧ dir.matching w ≠ [] then dir.matching w else [w.text]

def reserved : List Text :=
  ["!", "\x7b", "\x7d", "case", "do", "done", "elif", "else", "esac", "fi", "for", "if", "in", "then",
    "until", "while"].map bytes

/-- The first word names a command. -/
def Word.names (w : Word) : Bool :=
  !(w.any fun y => !y.quoted && y.char = byte '=') && !(w.all (!·.quoted) && reserved.contains w.text)

/-- The words of the simple command a line is. -/
def Directory.command (dir : Directory) (line : Text) : Option (List Text) :=
  match lex .blank [] line with
  | some (w :: ws) => if w.names then some ((w :: ws).flatMap dir.expand) else none
  | _ => none

/-! ## Reading a line from the front -/

theorem lex_cons {ctx : Context} {w : Word} {c : UInt8} {s : Text} :
    lex ctx w (c :: s) = match next ctx c with
      | .stop => none
      | .go ctx' out => lex ctx' (w ++ out) s
      | .finish => (lex .blank [] s).map (w :: ·) := by
  cases ctx <;> rfl

/-- A byte that stands for itself in a word. -/
def isPlain (c : UInt8) : Bool := next .word c = .go .word [plain c]

/-- **What is between single quotes is read as it is.** -/
theorem lex_single {v : Text} (h : byte '\'' ∉ v) (w : Word) (s : Text) :
    lex .single w (v ++ s) = lex .single (w ++ v.map quoted) s := by
  induction v generalizing w with
  | nil => rw [List.map_nil, List.append_nil, List.nil_append]
  | cons c v ih =>
    have hc : c ≠ byte '\'' := fun hc => h (hc ▸ List.mem_cons_self)
    have hv : byte '\'' ∉ v := fun hv => h (List.mem_cons_of_mem c hv)
    rw [List.cons_append, lex_cons, next, if_neg hc]
    simp only
    rw [ih hv, List.map_cons, List.append_assoc]
    rfl

theorem lex_plain {v : Text} (h : ∀ c ∈ v, isPlain c = true) (w : Word) (s : Text) :
    lex .word w (v ++ s) = lex .word (w ++ v.map plain) s := by
  induction v generalizing w with
  | nil => rw [List.map_nil, List.append_nil, List.nil_append]
  | cons c v ih =>
    have hc : next .word c = .go .word [plain c] := of_decide_eq_true (h c List.mem_cons_self)
    have hv := fun d hd => h d (List.mem_cons_of_mem c hd)
    rw [List.cons_append, lex_cons, hc]
    simp only
    rw [ih hv, List.map_cons, List.append_assoc]
    rfl

/-- A word of such bytes, from its beginning. -/
theorem lex_start {c : UInt8} {v : Text} (hc : next .blank c = .go .word [plain c])
    (hv : ∀ d ∈ v, isPlain d = true) (s : Text) :
    lex .blank [] (c :: v ++ s) = lex .word ((c :: v).map plain) s := by
  rw [List.cons_append, lex_cons, hc]
  simp only [List.nil_append]
  rw [lex_plain hv]
  rfl

/-- A word of such bytes. -/
def isPlainWord : Text → Bool
  | [] => false
  | c :: v => next .blank c = .go .word [plain c] && v.all isPlain

theorem lex_plainWord {v : Text} (h : isPlainWord v = true) (s : Text) :
    lex .blank [] (v ++ s) = lex .word (v.map plain) s := by
  cases v with
  | nil => cases h
  | cons c v =>
    rw [isPlainWord, Bool.and_eq_true, decide_eq_true_eq] at h
    exact lex_start h.1 (List.all_eq_true.mp h.2) s

/-- A blank ends the word. -/
theorem lex_finish (w : Word) (s : Text) : lex .word w (byte ' ' :: s) = (lex .blank [] s).map (w :: ·) := rfl

theorem lex_plainWord_blank {v : Text} (h : isPlainWord v = true) (s : Text) :
    lex .blank [] (v ++ byte ' ' :: s) = (lex .blank [] s).map (v.map plain :: ·) := by
  rw [lex_plainWord h, lex_finish]

/-- A single quote ends the quotes, and the line may end there. -/
theorem lex_close (w : Word) (s : Text) : lex .single w (byte '\'' :: s) = lex .word w s := by
  rw [lex_cons]
  show lex .word (w ++ []) s = _
  rw [List.append_nil]

/-- A pattern is expanded only if it matches. -/
theorem Directory.expand_of_no_match {dir : Directory} {w : Word} (h : dir.matching w = []) :
    dir.expand w = [w.text] := if_neg fun hw => hw.2 h

theorem Directory.expand_of_not_pattern (dir : Directory) {w : Word} (h : w.isPattern = false) :
    dir.expand w = [w.text] := if_neg fun hw => Bool.false_ne_true (h.symm.trans hw.1)

theorem text_plain (s : Text) : Word.text (s.map plain) = s := by
  rw [Word.text, List.map_map]
  exact List.map_id s

theorem text_quoted (s : Text) : Word.text (s.map quoted) = s := by
  rw [Word.text, List.map_map]
  exact List.map_id s

/-! ## What is read of a line -/

/-- The bytes of all words. -/
def size (ws : List Word) : Nat := (ws.map List.length).sum

/-- A backslash that may still turn out to stand for itself. -/
def pending : Context → Nat
  | .doubleEscaped => 1
  | _ => 0

/-- A step adds no more than the byte it takes, and the backslash before it. -/
theorem next_le {ctx : Context} {c : UInt8} {ctx' : Context} {out : List Sym} (h : next ctx c = .go ctx' out) :
    out.length + pending ctx' ≤ 1 + pending ctx := by
  cases ctx
  all_goals
    simp only [next, nextUnquoted] at h
    split_ifs at h <;> cases h
  all_goals simp [pending]

/-- An unquoted backslash adds nothing. -/
theorem next_escaped {ctx : Context} {c : UInt8} {inWord : Bool} {out : List Sym}
    (h : next ctx c = .go (.escaped inWord) out) : out = [] := by
  cases ctx
  all_goals
    simp only [next, nextUnquoted] at h
    split_ifs at h <;> cases h
  all_goals rfl

/-- A line yields no more bytes than it has. -/
theorem lex_size_le {ctx : Context} {w : Word} {s : Text} {ws : List Word} (h : lex ctx w s = some ws) :
    size ws ≤ w.length + s.length + pending ctx := by
  induction s generalizing ctx w ws with
  | nil =>
    cases ctx with
    | blank | comment =>
      cases h
      exact Nat.zero_le _
    | word =>
      cases h
      simp [size]
    | escaped | single | double | doubleEscaped => cases h
  | cons c s ih =>
    rw [lex_cons] at h
    cases hn : next ctx c with
    | stop =>
      rw [hn] at h
      cases h
    | go ctx' out =>
      rw [hn] at h
      have hle := next_le hn
      have hih := ih h
      rw [List.length_append] at hih
      rw [List.length_cons]
      omega
    | finish =>
      rw [hn] at h
      obtain ⟨ws', hws', rfl⟩ := Option.map_eq_some_iff.mp h
      have hih := ih hws'
      simp only [size, List.map_cons, List.sum_cons, List.length_nil, pending, List.length_cons] at hih ⊢
      omega

/-- The last byte of a line is a single quote: it ends what it began before, or the line is
not finished. -/
theorem lex_last_quote {ctx : Context} (hctx : ∀ b, ctx ≠ .escaped b) {w : Word} {ws : List Word}
    (h : lex ctx w [byte '\''] = some ws) : size ws ≤ w.length := by
  cases ctx with
  | blank | word | double | doubleEscaped => cases h
  | escaped b => exact absurd rfl (hctx b)
  | single =>
    cases h
    simp [size]
  | comment =>
    cases h
    exact Nat.zero_le _

/-- **A line that ends with a single quote yields fewer bytes than it has**, by induction
on the line: a quote that stands for itself costs the backslash before it. -/
theorem lex_quote_short {ctx : Context} (hctx : ∀ b, ctx ≠ .escaped b) {w : Word} {s : Text} {ws : List Word}
    (h : lex ctx w (s ++ [byte '\'']) = some ws) : size ws < w.length + s.length + 1 + pending ctx := by
  induction s generalizing ctx w ws with
  | nil =>
    have hle := lex_last_quote hctx h
    omega
  | cons c s ih =>
    rw [List.cons_append, lex_cons] at h
    rw [List.length_cons]
    cases hn : next ctx c with
    | stop =>
      rw [hn] at h
      cases h
    | go ctx' out =>
      rw [hn] at h
      have hle := next_le hn
      by_cases hesc : ∃ b, ctx' = .escaped b
      · obtain ⟨b, rfl⟩ := hesc
        have hout := next_escaped hn
        subst hout
        have hsize := lex_size_le h
        simp only [List.append_nil, List.length_append, List.length_singleton, pending] at hsize
        omega
      · have hih := ih (fun b hb => hesc ⟨b, hb⟩) h
        rw [List.length_append] at hih
        omega
    | finish =>
      rw [hn] at h
      obtain ⟨ws', hws', rfl⟩ := Option.map_eq_some_iff.mp h
      have hsize := lex_size_le hws'
      simp only [size, List.map_cons, List.sum_cons, List.length_nil, List.length_append, List.length_singleton,
        pending] at hsize ⊢
      omega

/-- A word has begun. -/
def Context.inWord : Context → Bool
  | .word | .single | .double | .doubleEscaped => true
  | .escaped inWord => inWord
  | .blank | .comment => false

theorem next_inWord {ctx : Context} {c : UInt8} {ctx' : Context} {out : List Sym} (hctx : ctx.inWord = true)
    (h : next ctx c = .go ctx' out) : ctx'.inWord = true := by
  cases ctx
  all_goals
    simp only [next, nextUnquoted] at h
    split_ifs at h <;> cases h
  all_goals first | rfl | simp_all [Context.inWord]

/-- The beginning of a word stays. -/
theorem lex_prefix {ctx : Context} (hctx : ctx.inWord = true) {w : Word} {s : Text} {ws : List Word}
    (h : lex ctx w s = some ws) : ∃ w' ws', ws = w' :: ws' ∧ w <+: w' := by
  induction s generalizing ctx w with
  | nil =>
    cases ctx with
    | word =>
      cases h
      exact ⟨w, [], rfl, List.prefix_refl w⟩
    | blank | comment => cases hctx
    | escaped | single | double | doubleEscaped => cases h
  | cons c s ih =>
    rw [lex_cons] at h
    cases hn : next ctx c with
    | stop =>
      rw [hn] at h
      cases h
    | go ctx' out =>
      rw [hn] at h
      obtain ⟨w', ws', hws, hpre⟩ := ih (next_inWord hctx hn) h
      exact ⟨w', ws', hws, (List.prefix_append w out).trans hpre⟩
    | finish =>
      rw [hn] at h
      obtain ⟨ws', _, rfl⟩ := Option.map_eq_some_iff.mp h
      exact ⟨w, ws', rfl, List.prefix_refl w⟩

end Shell
