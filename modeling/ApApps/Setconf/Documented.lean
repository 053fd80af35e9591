import ApApps.Setconf.Quoting

/- What is documented of the shell and of uci, and which of it the command lines of wl_cfg.lua
   ask for.

   `Documented dir system`: a line that the shell reads as the words of a uci command does what
   the command says. Of any other line nothing is known, so that `other` may be anything in
   `systemWith`. The shell reads a line as in `Lib/Shell.lean`; `dir` is the directory it is
   in, which has no names that begin with `wireless.` (`NoNames`). -/
namespace ApApps.Setconf
open Uci Shell Exec

/-! ## uci -/

/-- What `uci set` sets. -/
inductive Target where
  /-- an option of the last `wifi-iface` section -/
  | iface (option : IfaceOption)
  | radio (dev : Dev) (option : RadioOption)
  deriving DecidableEq

/-- `wireless.<section>.<option>=`. -/
def Target.name : Target → Bytes
  | .iface option => optionName option.name
  | .radio dev option => ascii "wireless." ++ dev.name ++ ascii ("." ++ option.name ++ "=")

/-- What is asked of uci. -/
inductive Request where
  | add
  | delete (idx : Int)
  | setType (dev : Dev)
  | set (target : Target) (v : Bytes)
  | commit

def Request.words : Request → List Bytes
  | .add => [ascii "uci", ascii "add", ascii "wireless", ifaceT]
  | .delete idx => [ascii "uci", ascii "delete", ascii "wireless.@wifi-iface[" ++ ascii (toString idx) ++ ascii "]"]
  | .setType dev => [ascii "uci", ascii "set", ascii "wireless." ++ dev.name ++ ascii "=" ++ devT]
  | .set target v => [ascii "uci", ascii "set", target.name ++ v]
  | .commit => [ascii "uci", ascii "commit", ascii "wireless"]

/-- The value of an option. uci has no empty ones: an option that is set to nothing is removed. -/
def stored (v : Bytes) : Option Bytes := if v = [] then none else some v

/-- What it changes of what is staged. -/
def Request.cmd : Request → Option (Cmd Bytes Bytes Bytes Bytes)
  | .add => some (.add ifaceT)
  | .delete idx => some (.delete ifaceT idx)
  | .setType dev => some (.setType dev.name devT)
  | .set (.iface option) v => some (.setAt ifaceT (-1) (ascii option.name) (stored v))
  | .set (.radio dev option) v => some (.setOption dev.name (ascii option.name) (stored v))
  | .commit => none

def Request.run (s : Files) (r : Request) : Files :=
  match r.cmd with
  | some c => { s with staged := c.run s.staged }
  | none => { s with file := s.staged }

/-- The shell runs uci with the words of a line, and uci does what it is asked. -/
def Documented (dir : Directory) (system : Bytes → Files → Files) : Prop :=
  ∀ line (r : Request) s, dir.command line = some r.words → system line s = r.run s

/-- No name in the directory begins like what uci is asked for. -/
def NoNames (dir : Directory) : Prop := ∀ w : Word, ascii "wireless." <+: w.text → dir.matching w = []

theorem NoNames.unmatched {dir : Directory} (h : NoNames dir) : Unmatched dir := fun w hw =>
  h w ((show ascii "wireless." <+: ascii "wireless.@wifi-iface" by decide).trans hw)

theorem stored_eq_some {v w : Bytes} (h : stored v = some w) : v = w := by
  obtain ⟨_, h⟩ := Option.ite_none_left_eq_some.mp h
  exact Option.some.inj h

theorem stored_of_ne {v : Bytes} (h : v ≠ []) : stored v = some v := if_neg h

/-! ## Reading a line -/

/-- Bytes that stand for themselves on a command line. -/
def Bare (v : Bytes) : Prop := ∀ c ∈ v, isPlain c = true ∧ c ≠ NUL

theorem bare_of_all {v : Bytes} (h : (v.all fun c => isPlain c && c ≠ NUL) = true) : Bare v := by
  intro c hc
  have hc := List.all_eq_true.mp h c hc
  rwa [Bool.and_eq_true, decide_eq_true_eq] at hc

theorem bare_int (i : Int) : Bare (ascii (toString i)) := by
  intro c hc
  have hdigit : ∀ c : UInt8, isDigit c = true → isPlain c = true ∧ c ≠ NUL := by decide +kernel
  rcases mem_ascii_int hc with h | rfl
  · exact hdigit c h
  · exact ⟨by decide, by decide⟩

theorem Bare.no_nul {v : Bytes} (h : Bare v) : NUL ∉ v := fun hn => (h NUL hn).2 rfl

theorem cString_of_no_nul {v : Bytes} (h : NUL ∉ v) : v.takeWhile (· ≠ NUL) = v := by
  refine List.takeWhile_eq_self_iff.mpr fun c hc => ?_
  have hne : c ≠ NUL := fun hn => h (hn ▸ hc)
  simpa using hne

theorem Bare.append {v w : Bytes} (hv : Bare v) (hw : Bare w) : Bare (v ++ w) := fun c hc =>
  (List.mem_append.mp hc).elim (hv c) (hw c)

section Reading
variable {dir : Directory}

/-- `uci`, a verb, and something whose beginning is known. -/
theorem command_uci (hdir : NoNames dir) {verb arg : Bytes} (hverb : isPlainWord verb = true)
    (hpat : Word.isPattern (verb.map plain) = false) (harg : isPlainWord arg = true)
    (hname : ascii "wireless." <+: arg) (t : Bytes) :
    dir.command (ascii "uci" ++ ch ' ' :: (verb ++ ch ' ' :: (arg ++ t))) =
      (lex .word (arg.map plain) t).map fun ws =>
        ascii "uci" :: verb :: (ws.headD []).text :: ws.tail.flatMap dir.expand := by
  have hfirst : ∀ s, lex .blank [] (ascii "uci" ++ ch ' ' :: s) = (lex .blank [] s).map ((ascii "uci").map plain :: ·) :=
    lex_plainWord_blank (by decide)
  have hsecond : ∀ s, lex .blank [] (verb ++ ch ' ' :: s) = (lex .blank [] s).map (verb.map plain :: ·) :=
    lex_plainWord_blank hverb
  unfold Directory.command
  rw [hfirst, hsecond, lex_plainWord harg]
  cases hlex : lex .word (arg.map plain) t with
  | none => rfl
  | some ws =>
    obtain ⟨w, ws, rfl, hpre⟩ := lex_prefix (show Context.word.inWord = true from rfl) hlex
    have hnames : Word.names ((ascii "uci").map plain) = true := by decide
    have huci := dir.expand_of_not_pattern (show Word.isPattern ((ascii "uci").map plain) = false by decide)
    have hw : dir.expand w = [w.text] := by
      apply Directory.expand_of_no_match
      apply hdir
      have htext := hpre.map Sym.char
      rw [show (arg.map plain).map Sym.char = arg from text_plain _] at htext
      exact hname.trans htext
    simp only [Option.map_some, hnames, if_true, List.flatMap_cons, huci, dir.expand_of_not_pattern hpat, hw, text_plain,
      List.cons_append, List.nil_append, List.headD_cons, List.tail_cons]

/-- All of it is bare. -/
theorem command_bare (hdir : NoNames dir) {verb arg : Bytes} (hverb : isPlainWord verb = true)
    (hpat : Word.isPattern (verb.map plain) = false) (harg : isPlainWord arg = true)
    (hname : ascii "wireless." <+: arg) {t : Bytes} (ht : Bare t) :
    dir.command (ascii "uci" ++ ch ' ' :: (verb ++ ch ' ' :: (arg ++ t))) = some [ascii "uci", verb, arg ++ t] := by
  have hlex : lex .word (arg.map plain) t = some [(arg ++ t).map plain] := by
    have h := lex_plain (fun c hc => (ht c hc).1) (arg.map plain) []
    rw [List.append_nil] at h
    rw [h, List.map_append]
    rfl
  rw [command_uci hdir hverb hpat harg hname, hlex]
  simp only [Option.map_some, List.headD_cons, List.tail_cons, List.flatMap_nil, text_plain]

/-- The line asks for this. -/
def Asks (dir : Directory) (line : Bytes) (r : Request) : Prop := osExecute dir line = some r.words

theorem asks_add (dir : Directory) : Asks dir (ascii "uci add wireless wifi-iface") .add := by
  rw [Asks, osExecute, cString_of_no_nul (by decide)]
  rfl

theorem asks_commit (dir : Directory) : Asks dir (ascii "uci commit wireless") .commit := by
  rw [Asks, osExecute, cString_of_no_nul (by decide)]
  rfl

theorem asks_delete (hdir : NoNames dir) (idx : Int) : Asks dir (deleteIface idx) (.delete idx) := by
  have hbare : Bare (ascii (toString idx) ++ ascii "]") := (bare_int idx).append (bare_of_all rfl)
  have hline : deleteIface idx = ascii "uci" ++ ch ' ' :: (ascii "delete" ++ ch ' ' ::
      (ascii "wireless.@wifi-iface[" ++ (ascii (toString idx) ++ ascii "]"))) := by
    rw [deleteIface, List.append_assoc]
    rfl
  have hnul : NUL ∉ deleteIface idx := by
    rw [deleteIface, List.append_assoc, List.mem_append]
    exact fun h => h.elim (by decide) hbare.no_nul
  rw [Asks, osExecute, cString_of_no_nul hnul, hline,
    command_bare hdir (by decide) (by decide) (by decide) (by decide) hbare, Request.words, List.append_assoc]

theorem asks_setType (hdir : NoNames dir) (dev : Dev) : Asks dir (setRadioType dev) (.setType dev) := by
  have hnul : NUL ∉ setRadioType dev := by cases dev <;> decide
  have harg : isPlainWord (ascii "wireless." ++ dev.name ++ ascii "=") = true := by cases dev <;> decide
  have h := command_bare hdir (show isPlainWord (ascii "set") = true by decide) (by decide) harg
    ((List.prefix_append _ _).trans (List.prefix_append _ _)) (show Bare devT from bare_of_all rfl)
  rw [Asks, osExecute, cString_of_no_nul hnul, Request.words, ← h]
  cases dev <;> rfl

/-! ## The options of a radio -/

theorem plainWord_radio (dev : Dev) (option : RadioOption) : isPlainWord (Target.radio dev option).name = true := by
  cases dev <;> cases option <;> decide

theorem prefix_radio (dev : Dev) (option : RadioOption) : ascii "wireless." <+: (Target.radio dev option).name :=
  (List.prefix_append _ _).trans (List.prefix_append _ _)

theorem no_nul_radio (dev : Dev) (option : RadioOption) : NUL ∉ (Target.radio dev option).name := by
  cases dev <;> cases option <;> decide

/-- The C string of the line. -/
theorem cString_setRadioOption (dev : Dev) (option : RadioOption) (v : Bytes) :
    (setRadioOption dev option v).takeWhile (· ≠ NUL) = ascii "uci" ++ ch ' ' :: (ascii "set" ++ ch ' ' ::
      ((Target.radio dev option).name ++ (formatS v).takeWhile (· ≠ NUL))) := by
  have hline : setRadioOption dev option v =
      (ascii "uci" ++ ch ' ' :: (ascii "set" ++ ch ' ' :: (Target.radio dev option).name)) ++ formatS v := by
    cases dev <;> cases option <;> rfl
  have hnul := no_nul_radio dev option
  rw [hline, List.takeWhile_append_of_pos fun c hc => ?_]
  · simp only [List.append_assoc, List.cons_append]
  · have hne : c ≠ NUL := by
      rintro rfl
      simp only [List.mem_append, List.mem_cons] at hc
      rcases hc with hc | hc | hc | hc | hc
      · exact absurd hc (by decide)
      · exact absurd hc (by decide)
      · exact absurd hc (by decide)
      · exact absurd hc (by decide)
      · exact hnul hc
    simpa using hne

theorem asks_setRadio (hdir : NoNames dir) (dev : Dev) (option : RadioOption) {v : Bytes} (hv : Bare v) :
    Asks dir (setRadioOption dev option v) (.set (.radio dev option) v) := by
  rw [Asks, osExecute, cString_setRadioOption, formatS_of_no_nul hv.no_nul, cString_of_no_nul hv.no_nul,
    command_bare hdir (by decide) (by decide) (plainWord_radio dev option) (prefix_radio dev option) hv]
  rfl

/-! ## The options of an interface -/

theorem asks_setIface (hdir : NoNames dir) (option : IfaceOption) {v : Bytes} (hq : ch '\'' ∉ v) (hnul : NUL ∉ v) :
    Asks dir (setIfaceOption option.name v) (.set (.iface option) v) :=
  (set_literally_of_front hdir.unmatched (front_name option) v).mpr ⟨hq, hnul⟩

/-- A value with a NUL is cut, or it is no command. -/
theorem asks_cut (hdir : NoNames dir) (option : IfaceOption) {v : Bytes} (hq : ch '\'' ∉ v) :
    Asks dir (setIfaceOption option.name v) (.set (.iface option) (v.takeWhile (· ≠ NUL))) ∨
      osExecute dir (setIfaceOption option.name v) = none :=
  set_cut hdir.unmatched (front_name option) hq

end Reading

/-! ## A system of which nothing else is known -/

/-- The left side of what is set. -/
def leftSide : Dev ⊕ Target → Bytes
  | .inl dev => ascii "wireless." ++ dev.name
  | .inr target => target.name.dropLast

def leftSides : List (Dev ⊕ Target) :=
  [Dev.radio0, .radio1].map .inl ++
    ([IfaceOption.device, .disabled, .hidden, .ssid, .encryption, .key, .network, .mode].map (.inr ∘ .iface) ++
      [Dev.radio0, .radio1].flatMap fun dev =>
        [RadioOption.country, .disabled, .hwmode, .htmode, .channel, .txpower].map (.inr ∘ .radio dev))

theorem mem_leftSides (x : Dev ⊕ Target) : x ∈ leftSides := by
  rcases x with dev | option | ⟨dev, option⟩
  · cases dev <;> simp [leftSides]
  · cases option <;> simp [leftSides]
  · cases dev <;> cases option <;> simp [leftSides]

theorem leftSide_inj {x y : Dev ⊕ Target} (h : leftSide x = leftSide y) : x = y :=
  List.inj_on_of_nodup_map (show (leftSides.map leftSide).Nodup by decide +kernel) (mem_leftSides x) (mem_leftSides y) h

theorem eq_notMem_leftSide (x : Dev ⊕ Target) : ch '=' ∉ leftSide x := by
  have hall : (leftSides.all fun x => !(leftSide x).contains (ch '=')) = true := by decide +kernel
  simpa using List.all_eq_true.mp hall x (mem_leftSides x)

theorem append_cons_inj {a : UInt8} {s s' v v' : Bytes} (hs : a ∉ s) (hs' : a ∉ s') (h : s ++ a :: v = s' ++ a :: v') :
    s = s' ∧ v = v' := by
  have htake : ∀ s v : Bytes, a ∉ s → (s ++ a :: v).takeWhile (· ≠ a) = s := by
    intro s v hs
    rw [List.takeWhile_append_of_pos fun c hc => by
      have hne : c ≠ a := fun hc' => hs (hc' ▸ hc)
      simpa using hne]
    simp
  have heq : s = s' := by rw [← htake s v hs, ← htake s' v' hs', h]
  subst heq
  exact ⟨rfl, (List.cons.inj (List.append_cancel_left h)).2⟩

/-- What a line that sets something says. -/
theorem sides_inj {x y : Dev ⊕ Target} {v w : Bytes} (h : leftSide x ++ ch '=' :: v = leftSide y ++ ch '=' :: w) :
    x = y ∧ v = w := by
  obtain ⟨hleft, hright⟩ := append_cons_inj (eq_notMem_leftSide x) (eq_notMem_leftSide y) h
  exact ⟨leftSide_inj hleft, hright⟩

theorem setType_words (dev : Dev) :
    (Request.setType dev).words = [ascii "uci", ascii "set", leftSide (.inl dev) ++ ch '=' :: devT] := by
  cases dev <;> rfl

theorem name_eq (target : Target) : target.name = leftSide (.inr target) ++ [ch '='] := by
  rcases target with option | ⟨dev, option⟩
  · cases option <;> rfl
  · cases dev <;> cases option <;> rfl

theorem set_words (target : Target) (v : Bytes) :
    (Request.set target v).words = [ascii "uci", ascii "set", leftSide (.inr target) ++ ch '=' :: v] := by
  rw [Request.words, name_eq, List.append_assoc]
  rfl

/-- The words of a request that is not to set something begin with another verb. -/
theorem words_set {r : Request} {arg : Bytes} {rest : List Bytes}
    (h : r.words = ascii "uci" :: ascii "set" :: arg :: rest) :
    rest = [] ∧ ∃ x v, arg = leftSide x ++ ch '=' :: v ∧
      r = x.elim (fun dev => .setType dev) fun target => .set target v := by
  have hverb : ∀ {s : List Bytes} {verb : Bytes}, ascii "uci" :: verb :: s = ascii "uci" :: ascii "set" :: arg :: rest →
      verb = ascii "set" ∧ s = arg :: rest := by
    intro s verb h
    simp only [List.cons.injEq, true_and] at h
    exact h
  cases r with
  | add => exact absurd (hverb h).1 (by decide)
  | delete => exact absurd (hverb h).1 (by decide)
  | commit => exact absurd (hverb h).1 (by decide)
  | setType dev =>
    rw [setType_words] at h
    obtain ⟨rfl, rfl⟩ := List.cons.inj (hverb h).2
    exact ⟨rfl, .inl dev, devT, rfl, rfl⟩
  | set target v =>
    rw [set_words] at h
    obtain ⟨rfl, rfl⟩ := List.cons.inj (hverb h).2
    exact ⟨rfl, .inr target, v, rfl, rfl⟩

/-- The words say which request it is. -/
theorem words_inj {r r' : Request} (h : r.words = r'.words) : r = r' := by
  have hset : ∀ (x : Dev ⊕ Target) (v : Bytes) (r : Request),
      r.words = [ascii "uci", ascii "set", leftSide x ++ ch '=' :: v] →
        r = x.elim (fun dev => .setType dev) fun target => .set target v := by
    intro x v r h
    obtain ⟨_, y, w, harg, rfl⟩ := words_set h
    obtain ⟨rfl, rfl⟩ := sides_inj harg
    rfl
  -- what is set is told by its left side, the other requests by their verbs
  cases r' with
  | setType dev => exact hset (.inl dev) devT r (h.trans (setType_words dev))
  | set target v => exact hset (.inr target) v r (h.trans (set_words target v))
  | add =>
    cases r with
    | add => rfl
    | delete | setType | set | commit => simp only [Request.words, List.cons.injEq, reduceCtorEq, and_false] at h
  | delete idx =>
    cases r with
    | delete idx' =>
      simp only [Request.words, List.cons.injEq, List.append_assoc, List.append_cancel_left_eq,
        List.append_cancel_right_eq, and_true, true_and] at h
      rw [ascii_int_inj h]
    | add => simp only [Request.words, List.cons.injEq, reduceCtorEq, and_false] at h
    | setType | set | commit =>
      have hverb := (List.cons.inj (List.cons.inj h).2).1
      exact absurd hverb (by decide)
  | commit =>
    cases r with
    | commit => rfl
    | add => simp only [Request.words, List.cons.injEq, reduceCtorEq, and_false] at h
    | delete | setType | set =>
      have hverb := (List.cons.inj (List.cons.inj h).2).1
      exact absurd hverb (by decide)

/-- A line that sets an option of a radio asks for that, if for anything. -/
theorem asks_of_setRadio {dir : Directory} (hdir : NoNames dir) {dev : Dev} {option : RadioOption} {v : Bytes}
    {r : Request} (h : Asks dir (setRadioOption dev option v) r) : ∃ w, r = .set (.radio dev option) w := by
  rw [Asks, osExecute, cString_setRadioOption, command_uci hdir (by decide) (by decide) (plainWord_radio dev option)
    (prefix_radio dev option)] at h
  obtain ⟨ws, hlex, hwords⟩ := Option.map_eq_some_iff.mp h
  obtain ⟨word, ws, rfl, hpre⟩ := lex_prefix (show Context.word.inWord = true from rfl) hlex
  -- the value may be cut, or read as more words, but the name before it stands
  obtain ⟨t, ht⟩ := hpre.map Sym.char
  rw [show ((Target.radio dev option).name.map plain).map Sym.char = (Target.radio dev option).name from
    text_plain _, name_eq, List.append_assoc, List.singleton_append] at ht
  obtain ⟨_, x, w, harg, rfl⟩ := words_set hwords.symm
  obtain ⟨rfl, rfl⟩ := sides_inj (ht.trans harg)
  exact ⟨t, rfl⟩

open Classical in
/-- What is documented, and for every other line `other`. -/
noncomputable def systemWith (dir : Directory) (other : Files → Files) (line : Bytes) (s : Files) : Files :=
  if h : ∃ r : Request, dir.command line = some r.words then h.choose.run s else other s

theorem systemWith_asked {dir : Directory} (other : Files → Files) {line : Bytes} {r : Request}
    (h : dir.command line = some r.words) (s : Files) : systemWith dir other line s = r.run s := by
  have hex : ∃ r : Request, dir.command line = some r.words := ⟨r, h⟩
  have hchoose : hex.choose = r := words_inj (Option.some.inj (hex.choose_spec.symm.trans h))
  rw [systemWith, dif_pos hex, hchoose]

theorem documented_systemWith (dir : Directory) (other : Files → Files) : Documented dir (systemWith dir other) :=
  fun _ _ s h => systemWith_asked other h s

end ApApps.Setconf
