import ApApps.Lib.Shell
import ApApps.Setconf.Wireless

/- The command strings of `create_wifi_iface_sections`, and what a shell reads in them.

   `ssid`, `encryption` and `key` are whatever strings the configuration has; they are put
   between single quotes and nothing in them is escaped. `set_literally`: the shell is given
   the value byte for byte exactly if there is no single quote and no NUL in it.

   The name of the option has brackets that are not quoted. A pattern stands for itself
   where it matches no name, so this is about a directory in which no name begins like the
   argument. -/
namespace ApApps.Setconf
open Shell

/-- The options of a WLAN that are strings of the configuration. -/
def stringOptions (cfg : IfaceCfg) : List (String × Bytes) :=
  [("ssid", cfg.ssid), ("encryption", cfg.encryption), ("key", cfg.key)]

/-- `os.execute(cmd)`: the words of the command the shell runs. A C string ends at its
first NUL. -/
def osExecute (dir : Directory) (cmd : Bytes) : Option (List Bytes) := dir.command (cmd.takeWhile (· ≠ NUL))

/-- The argument that sets the option. -/
def optionName (option : String) : Bytes := ascii ("wireless.@wifi-iface[-1]." ++ option ++ "=")

/-- No name in the directory begins like the argument. -/
def Unmatched (dir : Directory) : Prop := ∀ w : Word, ascii "wireless.@wifi-iface" <+: w.text → dir.matching w = []

/-! ## The front of the command -/

/-- What the option names have in common for the shell. -/
structure Front (option : String) : Prop where
  split : ascii ("uci set wireless.@wifi-iface[-1]." ++ option ++ "='") =
    ascii "uci" ++ ch ' ' :: (ascii "set" ++ ch ' ' :: (optionName option ++ [ch '\'']))
  no_nul : NUL ∉ ascii ("uci set wireless.@wifi-iface[-1]." ++ option ++ "='")
  plain : ∀ c ∈ (optionName option).tail, isPlain c = true
  start : ∃ s, optionName option = ch 'w' :: s
  name : ascii "wireless.@wifi-iface" <+: optionName option

theorem front_name (option : IfaceOption) : Front option.name := by
  cases option
  all_goals exact ⟨rfl, by decide, List.all_eq_true.mp rfl, ⟨_, rfl⟩, by decide⟩

theorem front_of_mem {cfg : IfaceCfg} {kv : String × Bytes} (h : kv ∈ stringOptions cfg) : Front kv.1 := by
  simp only [stringOptions, List.mem_cons, List.not_mem_nil, or_false] at h
  rcases h with rfl | rfl | rfl
  · exact front_name .ssid
  · exact front_name .encryption
  · exact front_name .key

/-- The front of the command are the words `uci` and `set`, and the beginning of a third. -/
theorem lex_front {option : String} (hf : Front option) (t : Bytes) :
    lex .blank [] (ascii ("uci set wireless.@wifi-iface[-1]." ++ option ++ "='") ++ t) =
      (lex .single ((optionName option).map plain) t).map fun ws =>
        (ascii "uci").map plain :: (ascii "set").map plain :: ws := by
  obtain ⟨s, hs⟩ := hf.start
  have hplain := hf.plain
  rw [hs, List.tail_cons] at hplain
  have huci : ∀ t, lex .blank [] (ascii "uci" ++ ch ' ' :: t) =
      (lex .blank [] t).map ((ascii "uci").map plain :: ·) := lex_plainWord_blank (by decide)
  have hset : ∀ t, lex .blank [] (ascii "set" ++ ch ' ' :: t) =
      (lex .blank [] t).map ((ascii "set").map plain :: ·) := lex_plainWord_blank (by decide)
  have hname : lex .blank [] (optionName option ++ ch '\'' :: t) =
      lex .single ((optionName option).map plain) t := by
    have hquote : next .word (ch '\'') = .go .single [] := by decide
    rw [hs, lex_start (by decide) hplain, lex_cons, hquote]
    simp only [List.append_nil]
  have hall : ascii "uci" ++ ch ' ' :: (ascii "set" ++ ch ' ' :: (optionName option ++ [ch '\''])) ++ t =
      ascii "uci" ++ ch ' ' :: (ascii "set" ++ ch ' ' :: (optionName option ++ ch '\'' :: t)) := by
    simp only [List.append_assoc, List.cons_append, List.nil_append]
  rw [hf.split, hall, huci, hset, hname, Option.map_map]
  rfl

/-- What the shell makes of the rest is all that is left to know. -/
theorem command_front {option : String} (hf : Front option) {dir : Directory} (hdir : Unmatched dir) (t : Bytes)
    {arg : Bytes} :
    dir.command (ascii ("uci set wireless.@wifi-iface[-1]." ++ option ++ "='") ++ t) =
        some [ascii "uci", ascii "set", arg] ↔
      ∃ w ws, lex .single ((optionName option).map plain) t = some (w :: ws) ∧ w.text = arg ∧
        ws.flatMap dir.expand = [] := by
  unfold Directory.command
  rw [lex_front hf]
  cases hlex : lex .single ((optionName option).map plain) t with
  | none => simp
  | some ws =>
    obtain ⟨w, ws, rfl, hpre⟩ := lex_prefix (show Context.single.inWord = true from rfl) hlex
    have hnames : Word.names ((ascii "uci").map plain) = true := by decide
    have huci := dir.expand_of_not_pattern (show Word.isPattern ((ascii "uci").map plain) = false by decide)
    have hset := dir.expand_of_not_pattern (show Word.isPattern ((ascii "set").map plain) = false by decide)
    have hw : dir.expand w = [w.text] := by
      apply Directory.expand_of_no_match
      apply hdir
      have htext := hpre.map Sym.char
      rw [show ((optionName option).map plain).map Sym.char = optionName option from text_plain _] at htext
      exact hf.name.trans htext
    simp only [Option.map_some, hnames, if_true, List.flatMap_cons, huci, hset, hw, text_plain, Option.some.injEq,
      List.cons_append, List.nil_append, List.cons.injEq, true_and]
    constructor
    · rintro ⟨harg, hrest⟩
      exact ⟨w, ws, ⟨rfl, rfl⟩, harg, hrest⟩
    · rintro ⟨_, _, ⟨rfl, rfl⟩, harg, hrest⟩
      exact ⟨harg, hrest⟩

/-! ## The value -/

/-- Too few bytes are left for the value. -/
theorem not_literal {option : String} (hf : Front option) {dir : Directory} (hdir : Unmatched dir) {t v : Bytes}
    (hshort : ∀ ws, lex .single ((optionName option).map plain) t = some ws →
      size ws < (optionName option).length + v.length) :
    dir.command (ascii ("uci set wireless.@wifi-iface[-1]." ++ option ++ "='") ++ t) ≠
      some [ascii "uci", ascii "set", optionName option ++ v] := by
  intro h
  obtain ⟨w, ws, hlex, htext, _⟩ := (command_front hf hdir t).mp h
  have hsize := hshort _ hlex
  have hlen := congrArg List.length htext
  rw [Word.text, List.length_map, List.length_append] at hlen
  rw [size, List.map_cons, List.sum_cons] at hsize
  omega

/-- The value as it is, if nothing in it ends the quotes. -/
theorem literal_of_no_quote {option : String} (hf : Front option) {dir : Directory} (hdir : Unmatched dir) {v : Bytes}
    (h : ch '\'' ∉ v) :
    dir.command (ascii ("uci set wireless.@wifi-iface[-1]." ++ option ++ "='") ++ (v ++ [ch '\''])) =
      some [ascii "uci", ascii "set", optionName option ++ v] := by
  refine (command_front hf hdir _).mpr ⟨(optionName option).map plain ++ v.map quoted, [], ?_, ?_, rfl⟩
  · rw [lex_single h]
    exact lex_close _ []
  · rw [Word.text, List.map_append]
    exact congrArg₂ (· ++ ·) (text_plain _) (text_quoted _)

/-- A quote in the value, and fewer bytes are left than it has. -/
theorem quote_short {w : Word} {v : Bytes} (h : ch '\'' ∈ v) {ws : List Word}
    (hlex : lex .single w (v ++ [ch '\'']) = some ws) : size ws < w.length + v.length := by
  obtain ⟨a, b, rfl, ha⟩ := List.eq_append_cons_of_mem h
  rw [List.append_assoc, lex_single ha] at hlex
  have hclose : lex .word (w ++ a.map quoted) (b ++ [ch '\'']) = some ws := (lex_close _ _).symm.trans hlex
  have hshort := lex_quote_short (by nofun) hclose
  simp only [List.length_append, List.length_map, pending, List.length_cons] at hshort ⊢
  omega

theorem takeWhile_quote {a : Bytes} (h : NUL ∉ a) :
    (a ++ [ch '\'']).takeWhile (· ≠ NUL) = a ++ [ch '\''] := by
  refine List.takeWhile_eq_self_iff.mpr fun c hc => ?_
  simp only [decide_eq_true_eq]
  rintro rfl
  rcases List.mem_append.mp hc with hc | hc
  · exact h hc
  · exact absurd (List.mem_singleton.mp hc) (by decide)

/-- So with a NUL: a short value is cut in front of it, and of a long one the command is. -/
theorem nul_short {w : Word} {v : Bytes} (h : NUL ∈ v) {ws : List Word}
    (hlex : lex .single w ((formatS v ++ [ch '\'']).takeWhile (· ≠ NUL)) = some ws) :
    size ws < w.length + v.length := by
  obtain ⟨a, b, rfl, ha⟩ := List.eq_append_cons_of_mem h
  have hcut : ∀ s : Bytes, (a ++ NUL :: s).takeWhile (· ≠ NUL) = a := fun s => by
    rw [List.takeWhile_append_of_pos fun c hc => by
      have hne : c ≠ NUL := fun hn => ha (hn ▸ hc)
      simpa using hne]
    simp
  simp only [List.length_append, List.length_cons]
  unfold formatS at hlex
  split at hlex
  · rw [List.append_assoc, List.cons_append, hcut] at hlex
    have hsize := lex_size_le hlex
    simp only [pending] at hsize
    omega
  · rw [hcut, takeWhile_quote ha] at hlex
    have hsize := lex_quote_short (fun b hb => by cases hb) hlex
    simp only [pending] at hsize
    omega

/-- What the C string is of a command that sets an option. -/
theorem cString_setIfaceOption {option : String} (hf : Front option) (v : Bytes) :
    (setIfaceOption option v).takeWhile (· ≠ NUL) =
      ascii ("uci set wireless.@wifi-iface[-1]." ++ option ++ "='") ++
        (formatS v ++ [ch '\'']).takeWhile (· ≠ NUL) := by
  have hquote : ascii "'" = [ch '\''] := by decide +kernel
  rw [setIfaceOption, List.append_assoc, hquote]
  refine List.takeWhile_append_of_pos fun c hc => ?_
  have hne : c ≠ NUL := fun hn => hf.no_nul (hn ▸ hc)
  simpa using hne

/-- With any of the option names. -/
theorem set_literally_of_front {dir : Directory} (hdir : Unmatched dir) {option : String} (hf : Front option)
    (v : Bytes) :
    osExecute dir (setIfaceOption option v) = some [ascii "uci", ascii "set", optionName option ++ v] ↔
      ch '\'' ∉ v ∧ NUL ∉ v := by
  rw [osExecute, cString_setIfaceOption hf]
  by_cases hnul : NUL ∈ v
  · -- the string ends before the value does
    refine iff_of_false (not_literal hf hdir fun ws hlex => ?_) fun hv => hv.2 hnul
    have hshort := nul_short hnul hlex
    rwa [List.length_map] at hshort
  · rw [formatS_of_no_nul hnul]
    rw [takeWhile_quote hnul]
    by_cases hq : ch '\'' ∈ v
    · refine iff_of_false (not_literal hf hdir fun ws hlex => ?_) fun hv => hv.1 hq
      have hshort := quote_short hq hlex
      rwa [List.length_map] at hshort
    · exact iff_of_true (literal_of_no_quote hf hdir hq) ⟨hq, hnul⟩

/-- Without a quote, a value with a NUL is set without what comes after that, or the quotes are
not closed. -/
theorem set_cut {dir : Directory} (hdir : Unmatched dir) {option : String} (hf : Front option) {v : Bytes}
    (hq : ch '\'' ∉ v) :
    osExecute dir (setIfaceOption option v) =
        some [ascii "uci", ascii "set", optionName option ++ v.takeWhile (· ≠ NUL)] ∨
      osExecute dir (setIfaceOption option v) = none := by
  have hcut : ch '\'' ∉ v.takeWhile (· ≠ NUL) ∧ NUL ∉ v.takeWhile (· ≠ NUL) :=
    ⟨fun h => hq ((List.takeWhile_prefix _).subset h), fun h => by simpa using List.mem_takeWhile_imp h⟩
  by_cases hlen : 100 ≤ v.length
  · by_cases hnul : NUL ∈ v
    · right
      have hall : (v ++ [ch '\'']).takeWhile (· ≠ NUL) = v.takeWhile (· ≠ NUL) := by
        obtain ⟨a, b, rfl, ha⟩ := List.eq_append_cons_of_mem hnul
        have ha' : ∀ c ∈ a, decide (c ≠ NUL) = true := fun c hc => by
          have hne : c ≠ NUL := fun hn => ha (hn ▸ hc)
          simpa using hne
        rw [List.append_assoc, List.takeWhile_append_of_pos ha', List.takeWhile_append_of_pos ha']
        simp
      rw [osExecute, cString_setIfaceOption hf, formatS, if_pos hlen, hall, Directory.command, lex_front hf,
        ← List.append_nil (v.takeWhile _), lex_single hcut.1]
      rfl
    · left
      have htake : v.takeWhile (· ≠ NUL) = v := by
        refine List.takeWhile_eq_self_iff.mpr fun c hc => ?_
        have hne : c ≠ NUL := fun hn => hnul (hn ▸ hc)
        simpa using hne
      rw [htake]
      exact (set_literally_of_front hdir hf v).mpr ⟨hq, hnul⟩
  · left
    have hsame : setIfaceOption option v = setIfaceOption option (v.takeWhile (· ≠ NUL)) := by
      rw [setIfaceOption, setIfaceOption, formatS_of_no_nul hcut.2, formatS, if_neg hlen]
    rw [hsame]
    exact (set_literally_of_front hdir hf _).mpr hcut

/-- **The shell is given the value byte for byte exactly if it has no single quote and no
NUL.** -/
theorem set_literally {dir : Directory} (hdir : Unmatched dir) {cfg : IfaceCfg} {kv : String × Bytes}
    (h : kv ∈ stringOptions cfg) :
    osExecute dir (setIfaceOption kv.1 kv.2) = some [ascii "uci", ascii "set", optionName kv.1 ++ kv.2] ↔
      ch '\'' ∉ kv.2 ∧ NUL ∉ kv.2 :=
  set_literally_of_front hdir (front_of_mem h) kv.2

/-- A directory without names that begin like the argument, and an ordinary WLAN. -/
theorem set_literally_home :
    osExecute ⟨fun _ => []⟩ (setIfaceOption "ssid" (ascii "Home 2 $x")) =
        some [ascii "uci", ascii "set", optionName "ssid" ++ ascii "Home 2 $x"] ↔
      ch '\'' ∉ ascii "Home 2 $x" ∧ NUL ∉ ascii "Home 2 $x" := by
  have hdir : Unmatched ⟨fun _ => []⟩ := fun _ _ => rfl
  have hmem : (("ssid", ascii "Home 2 $x") : String × Bytes) ∈
      stringOptions ⟨none, 1, 0, .int 0, ascii "Home 2 $x", ascii "none", ascii "none"⟩ := by
    simp only [stringOptions, List.mem_cons, true_or]
  have h := set_literally hdir hmem
  exact h

/-- An apostrophe is lost, and what comes after one may be a command. -/
theorem apostrophe_lost :
    osExecute ⟨fun _ => []⟩ (setIfaceOption "ssid" (ascii "O'Neil's")) =
        some [ascii "uci", ascii "set", optionName "ssid" ++ ascii "ONeils"] ∧
      osExecute ⟨fun _ => []⟩ (setIfaceOption "ssid" (ascii "';reboot;'")) = none := by
  decide +kernel

end ApApps.Setconf
