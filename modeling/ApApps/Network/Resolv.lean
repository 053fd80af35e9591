import ApApps.Network.Main

/- The name servers of a static configuration.

   `set_static` is to add the configured name servers to `/etc/resolv.conf` that it does
   not list yet (`Settles`). It looks for the key `a#ip` in the table of the listed ones
   instead of the name server, so it adds all of them every time; and `current_dns` does not
   see a line that ends right after the name server, which is how `echo` writes it.
   `setStatic_settles_iff` says exactly when nothing goes wrong: when every name server is
   listed and set_static adds none.

   What the shell does with a word that is not made of letters, digits and `.:-_` is left open
   (`Echoes`). -/
namespace ApApps.Network
open ApApps.Cfg

/-! ## The file -/

/-- The lines of the rest of a file, `cur` being the beginning of the first. -/
def cutLines : Bytes → Bytes → List Bytes
  | cur, [] => if cur = [] then [] else [cur]
  | cur, c :: s => if c = LF then cur :: cutLines [] s else cutLines (cur ++ [c]) s

/-- `fp:lines()`; a last line may do without its line feed. -/
def linesOf (s : Bytes) : List Bytes := cutLines [] s

/-- `line:match("nameserver%s+(.-)%s+")`. -/
def serverIn (line : Bytes) : Option Bytes := line.tails.findSome? serverAt

/-- `current_dns`, from the contents of the file, if it is there. -/
def currentServers (content : Option Bytes) : List Bytes := currentDns (content.map linesOf)

theorem mem_currentServers {content : Option Bytes} {ip : Bytes} :
    ip ∈ currentServers content ↔ ∃ line ∈ linesOf (content.getD []), serverIn line = some ip := by
  cases content with
  | none => simp [currentServers, currentDns, linesOf, cutLines]
  | some s => simp [currentServers, currentDns, serverIn]

/-! ## set_static -/

/-- `dnsarr`. -/
def dnsarr (env : Env) (map : Config) (content : Option Bytes) : List Bytes :=
  if ascii "a#ip" ∈ currentServers content then [] else env.pairs (parseDns (setting map "a#dns"))

/-- The command has an `echo nameserver` for each of `dnsarr`. -/
theorem setStatic_eq (env : Env) (map : Config) (content : Option Bytes) :
    setStatic env map (currentServers content) = staticCmd map (dnsarr env map content) := rfl

/-- What the command adds to the file; `echo ip` is what `echo nameserver <ip>` prints. -/
def appended (env : Env) (echo : Bytes → Bytes) (map : Config) (content : Option Bytes) : Bytes :=
  (dnsarr env map content).flatMap echo

/-- The file after the command: `>>` creates it. -/
def settled (env : Env) (echo : Bytes → Bytes) (map : Config) (content : Option Bytes) : Option Bytes :=
  if dnsarr env map content = [] then content
  else some (content.getD [] ++ appended env echo map content)

def isWordChar (c : UInt8) : Bool :=
  isDigit c || (97 ≤ c && c ≤ 122) || (65 ≤ c && c ≤ 90) || (ascii ".:-_").contains c

/-- A word no shell takes for something else. -/
def IsWord (ip : Bytes) : Prop := ip ≠ [] ∧ ip.all isWordChar

instance (ip : Bytes) : Decidable (IsWord ip) := inferInstanceAs (Decidable (_ ∧ _))

/-- The line `nameserver ip`. -/
def serverLine (ip : Bytes) : Bytes := ascii "nameserver " ++ ip

/-- `echo` prints a line with its words. -/
def Echoes (echo : Bytes → Bytes) : Prop := ∀ ip, IsWord ip → echo ip = serverLine ip ++ [LF]

/-! ## What set_static is for -/

/-- `a#dns` without blanks. -/
def withoutBlanks (str : Bytes) : Bytes := str.filter fun c => ¬ (c = 32 ∨ c = 9 ∨ c = 10 ∨ c = 13)

/-- The configured name servers: the entries that are not empty. -/
def servers (str : Bytes) : List Bytes :=
  (((withoutBlanks str).splitOn (ch ',')).filter fun ip => ip ≠ []).dedup

/-- The file has a line `nameserver ip`, whether or not with blanks at its end. -/
def Listed (content : Option Bytes) (ip : Bytes) : Prop :=
  ∃ line ∈ linesOf (content.getD []), ∃ blanks, blanks.all isSpace ∧ line = serverLine ip ++ blanks

/-- One line is added for each configured name server that is not listed yet; afterwards all are,
and doing the same again adds nothing. -/
structure Settles (env : Env) (echo : Bytes → Bytes) (map : Config) (content : Option Bytes) : Prop where
  exact : ∃ ips : List Bytes, ips.Nodup ∧
    (∀ ip, ip ∈ ips ↔ ip ∈ servers (setting map "a#dns") ∧ ¬ Listed content ip) ∧
    appended env echo map content = ips.flatMap fun ip => serverLine ip ++ [LF]
  all : ∀ ip ∈ servers (setting map "a#dns"), Listed (settled env echo map content) ip
  again : appended env echo map (settled env echo map content) = []

/-! ## The pattern -/

theorem serverAt_name (rest : Bytes) : serverAt (ascii "nameserver" ++ rest) =
    (if rest.takeWhile isSpace = [] then none
    else if (rest.dropWhile isSpace).dropWhile (fun c => !isSpace c) ≠ [] then
      some ((rest.dropWhile isSpace).takeWhile fun c => !isSpace c)
    else if 1 < (rest.takeWhile isSpace).length then some [] else none) := by
  rw [serverAt, if_pos (List.prefix_append _ _), List.drop_left]

theorem serverAt_other {s : Bytes} (h : ¬ ascii "nameserver" <+: s) : serverAt s = none := by
  rw [serverAt, if_neg h]

theorem serverIn_cons (c : UInt8) (s : Bytes) :
    serverIn (c :: s) = (serverAt (c :: s)).or (serverIn s) := by
  rw [serverIn, List.tails_cons, List.findSome?_cons]
  cases serverAt (c :: s) <;> rfl

theorem serverIn_skip {c : UInt8} (s : Bytes) (h : c ≠ ch 'n') : serverIn (c :: s) = serverIn s := by
  rw [serverIn_cons, serverAt_other, Option.none_or]
  rintro ⟨rest, hrest⟩
  cases hrest
  exact h rfl

/-- Without a blank there is no match. -/
theorem serverIn_solid : ∀ {s : Bytes}, (∀ c ∈ s, isSpace c = false) → serverIn s = none
  | [], _ => rfl
  | c :: s, h => by
    rw [serverIn_cons, serverIn_solid fun d hd => h d (List.mem_cons_of_mem _ hd), Option.or_none]
    by_cases hname : ascii "nameserver" <+: c :: s
    · obtain ⟨rest, hrest⟩ := hname
      rw [← hrest, serverAt_name, if_pos]
      cases rest with
      | nil => rfl
      | cons d r =>
        have hd := h d (hrest ▸ List.mem_append_right _ List.mem_cons_self)
        rw [List.takeWhile_cons_of_neg (by simp [hd])]
    · exact serverAt_other hname

theorem isSpace_of_isWordChar : ∀ c : UInt8, isWordChar c = true → isSpace c = false := by
  decide +kernel

theorem serverLine_eq (ip : Bytes) : serverLine ip = ch 'n' :: (ascii "ameserver " ++ ip) := rfl

/-- `current_dns` does not see a line that `echo` has written. -/
theorem serverIn_serverLine {ip : Bytes} (h : IsWord ip) : serverIn (serverLine ip) = none := by
  have hsolid : ∀ c ∈ ip, isSpace c = false := by
    intro c hc
    exact isSpace_of_isWordChar c (List.all_eq_true.mp h.2 c hc)
  have hstart : serverAt (serverLine ip) = none := by
    obtain ⟨hne, -⟩ := h
    cases ip with
    | nil => exact absurd rfl hne
    | cons c ip =>
      have hword : (c :: ip).dropWhile (fun d => !isSpace d) = [] := by
        rw [List.dropWhile_eq_nil_iff]
        intro d hd
        simp [hsolid d hd]
      have hc : isSpace c = false := hsolid c List.mem_cons_self
      have hspaces : (32 :: c :: ip).takeWhile isSpace = [32] := by
        rw [List.takeWhile_cons_of_pos rfl, List.takeWhile_cons_of_neg (by simp [hc])]
      have hrest : (32 :: c :: ip).dropWhile isSpace = c :: ip := by
        rw [List.dropWhile_cons_of_pos rfl, List.dropWhile_cons_of_neg (by simp [hc])]
      have hline : serverLine (c :: ip) = ascii "nameserver" ++ (32 :: c :: ip) := rfl
      rw [hline, serverAt_name, hspaces, hrest, hword]
      rfl
  rw [serverLine_eq, serverIn_cons, ← serverLine_eq, hstart, Option.none_or]
  -- no other letter of the name is an `n`
  have hskip : ∀ w : Bytes, (∀ c ∈ w, c ≠ ch 'n') → serverIn (w ++ ip) = serverIn ip := by
    intro w hw
    induction w with
    | nil => rfl
    | cons c w ih =>
      rw [List.cons_append, serverIn_skip _ (hw c List.mem_cons_self)]
      exact ih fun d hd => hw d (List.mem_cons_of_mem _ hd)
  rw [hskip _ (by decide +kernel), serverIn_solid hsolid]

/-- The first letter of the name does not come again in it, so an occurrence does not reach
into the line. -/
theorem name_prefix_append {s ip : Bytes} (hs : s ≠ []) (h : ascii "nameserver" <+: s ++ serverLine ip) :
    ascii "nameserver" <+: s := by
  by_cases hlen : 10 ≤ s.length
  · exact List.prefix_of_prefix_length_le h (List.prefix_append _ _) hlen
  · exfalso
    have hpos : 0 < s.length := List.length_pos_iff.mpr hs
    have hat : (s ++ serverLine ip)[s.length]? = some (ch 'n') := by
      rw [List.getElem?_append_right (le_refl _), Nat.sub_self, serverLine_eq, List.getElem?_cons_zero]
    obtain ⟨rest, hrest⟩ := h
    rw [← hrest, List.getElem?_append_left (by show s.length < 10; omega)] at hat
    have hnone : ∀ i : Fin 10, 0 < i.val → (ascii "nameserver")[i.val]? ≠ some (ch 'n') := by decide
    exact hnone ⟨s.length, by omega⟩ hpos hat

/-- The match when another line is added to what follows the name. -/
theorem serverAt_name_append (rest ip : Bytes) :
    serverAt (ascii "nameserver" ++ (rest ++ serverLine ip)) =
    (if rest.takeWhile isSpace = [] then none
    else if (rest.dropWhile isSpace).dropWhile (fun c => !isSpace c) ≠ [] then
      some ((rest.dropWhile isSpace).takeWhile fun c => !isSpace c)
    else some (rest.dropWhile isSpace ++ ascii "nameserver")) := by
  have htake : (rest ++ serverLine ip).takeWhile isSpace = rest.takeWhile isSpace := by
    rw [List.takeWhile_append]
    split
    · rename_i hall
      rw [(List.takeWhile_prefix _).eq_of_length hall]
      exact List.append_nil _
    · rfl
  have hdrop : (rest ++ serverLine ip).dropWhile isSpace = rest.dropWhile isSpace ++ serverLine ip := by
    rw [List.dropWhile_append]
    split
    · rename_i hnil
      rw [List.isEmpty_iff.mp hnil]
      rfl
    · rfl
  rw [serverAt_name, htake, hdrop]
  by_cases hend : (rest.dropWhile isSpace).dropWhile (fun c => !isSpace c) = []
  · -- the word goes on into the line
    have hall := List.dropWhile_eq_nil_iff.mp hend
    have hdrop2 : (rest.dropWhile isSpace ++ serverLine ip).dropWhile (fun c => !isSpace c) = 32 :: ip := by
      rw [List.dropWhile_append_of_pos hall]
      rfl
    rw [hdrop2, if_pos (List.cons_ne_nil _ _), if_neg (not_not.mpr hend), List.takeWhile_append_of_pos hall]
    rfl
  · have hdrop2 : (rest.dropWhile isSpace ++ serverLine ip).dropWhile (fun c => !isSpace c) ≠ [] := by
      rw [List.dropWhile_append, if_neg (by simpa using hend)]
      exact List.append_ne_nil_of_left_ne_nil hend _
    have htake2 : (rest.dropWhile isSpace ++ serverLine ip).takeWhile (fun c => !isSpace c) =
        (rest.dropWhile isSpace).takeWhile fun c => !isSpace c := by
      rw [List.takeWhile_append, if_neg]
      intro hall
      have heq := List.takeWhile_eq_self_iff.mp ((List.takeWhile_prefix _).eq_of_length hall)
      exact hend (List.dropWhile_eq_nil_iff.mpr heq)
    rw [if_pos hdrop2, if_pos hend, htake2]

/-- The match at one place of a line to whose end another one is added is the one without
that, or it ends in `nameserver`. -/
theorem serverAt_append {s : Bytes} (ip : Bytes) (hs : s ≠ []) :
    serverAt (s ++ serverLine ip) = serverAt s ∨
    ∃ v, serverAt (s ++ serverLine ip) = some (v ++ ascii "nameserver") := by
  by_cases hname : ascii "nameserver" <+: s
  · obtain ⟨rest, rfl⟩ := hname
    rw [List.append_assoc, serverAt_name_append, serverAt_name]
    by_cases hspaces : rest.takeWhile isSpace = []
    · exact .inl (by rw [if_pos hspaces, if_pos hspaces])
    · rw [if_neg hspaces, if_neg hspaces]
      by_cases hend : (rest.dropWhile isSpace).dropWhile (fun c => !isSpace c) = []
      · exact .inr ⟨_, if_neg (not_not.mpr hend)⟩
      · exact .inl (by rw [if_pos hend, if_pos hend])
  · left
    rw [serverAt_other hname, serverAt_other (mt (name_prefix_append hs) hname)]

/-- Adding a line to the end of another one does not make it list `a#ip`. -/
theorem serverIn_append {ip : Bytes} (h : IsWord ip) : ∀ {s : Bytes},
    serverIn (s ++ serverLine ip) = some (ascii "a#ip") → serverIn s = some (ascii "a#ip")
  | [], hfound => by
    rw [List.nil_append, serverIn_serverLine h] at hfound
    cases hfound
  | c :: s, hfound => by
    rw [List.cons_append, serverIn_cons, ← List.cons_append] at hfound
    rw [serverIn_cons]
    rcases serverAt_append ip (List.cons_ne_nil c s) with hsame | ⟨v, hv⟩
    · rw [hsame] at hfound
      cases hat : serverAt (c :: s) with
      | none =>
        rw [hat, Option.none_or] at hfound
        rw [Option.none_or]
        exact serverIn_append h hfound
      | some w => rwa [hat] at hfound
    · rw [hv, Option.some_or, Option.some_inj] at hfound
      have hlen := congrArg List.length hfound
      rw [List.length_append] at hlen
      have hfour : (ascii "a#ip").length = 4 := rfl
      have hten : (ascii "nameserver").length = 10 := rfl
      omega

/-! ## Adding lines -/

/-- A line added to a file is a new line of it, or the end of one that had no line feed. -/
theorem cutLines_append {line : Bytes} (h : LF ∉ line) (s cur : Bytes) : ∃ lines last,
    cutLines cur s = lines ++ (if last = [] then [] else [last]) ∧
    cutLines cur (s ++ (line ++ [LF])) = lines ++ [last ++ line] := by
  induction s generalizing cur with
  | nil =>
    refine ⟨[], cur, rfl, ?_⟩
    rw [List.nil_append]
    induction line generalizing cur with
    | nil => simp [cutLines]
    | cons c line ih =>
      have hc : c ≠ LF := fun hc => h (hc ▸ List.mem_cons_self)
      rw [List.cons_append, cutLines, if_neg hc, ih (fun hmem => h (List.mem_cons_of_mem _ hmem)) (cur ++ [c])]
      simp
  | cons c s ih =>
    rw [List.cons_append, cutLines, cutLines]
    by_cases hc : c = LF
    · obtain ⟨lines, last, h1, h2⟩ := ih []
      rw [if_pos hc, if_pos hc, h1, h2]
      exact ⟨cur :: lines, last, rfl, rfl⟩
    · rw [if_neg hc, if_neg hc]
      exact ih (cur ++ [c])

theorem mem_linesOf_append {s line l : Bytes} (h : LF ∉ line) (hl : l ∈ linesOf (s ++ (line ++ [LF]))) :
    l ∈ linesOf s ∨ ∃ last, (last = [] ∨ last ∈ linesOf s) ∧ l = last ++ line := by
  obtain ⟨lines, last, h1, h2⟩ := cutLines_append h s []
  have hs : linesOf s = lines ++ (if last = [] then [] else [last]) := h1
  have hnew : linesOf (s ++ (line ++ [LF])) = lines ++ [last ++ line] := h2
  rw [hnew, List.mem_append, List.mem_singleton] at hl
  rcases hl with hl | rfl
  · exact .inl (hs ▸ List.mem_append_left _ hl)
  · refine .inr ⟨last, ?_, rfl⟩
    by_cases hlast : last = []
    · exact .inl hlast
    · rw [if_neg hlast] at hs
      exact .inr (hs ▸ List.mem_append_right _ List.mem_cons_self)

theorem no_lf_serverLine {ip : Bytes} (h : IsWord ip) : LF ∉ serverLine ip := by
  rw [serverLine, List.mem_append]
  rintro (hname | hip)
  · revert hname
    decide +kernel
  · have hspace := isSpace_of_isWordChar LF (List.all_eq_true.mp h.2 LF hip)
    exact absurd hspace (by decide)

/-- An `echo` of which nothing is known but what it does to words. -/
def wordEcho (ip : Bytes) : Bytes := if IsWord ip then serverLine ip ++ [LF] else [LF]

theorem echoes_wordEcho : Echoes wordEcho := fun _ h => if_pos h

/-- What set_static adds to a file that does not list `a#ip` does not list it either. -/
theorem not_listed_append {s : Bytes} (ips : List Bytes) (h : ∀ line ∈ linesOf s, serverIn line ≠ some (ascii "a#ip")) :
    ∀ line ∈ linesOf (s ++ ips.flatMap wordEcho), serverIn line ≠ some (ascii "a#ip") := by
  induction ips generalizing s with
  | nil =>
    rw [List.flatMap_nil, List.append_nil]
    exact h
  | cons ip ips ih =>
    rw [List.flatMap_cons, ← List.append_assoc]
    apply ih
    intro line hline hfound
    -- at most one line is not a line of the file before
    have hold : ∀ last, last = [] ∨ last ∈ linesOf s → serverIn last ≠ some (ascii "a#ip") := by
      rintro last (rfl | hlast)
      · exact fun hnil => nomatch hnil
      · exact h last hlast
    by_cases hword : IsWord ip
    · rw [wordEcho, if_pos hword] at hline
      rcases mem_linesOf_append (no_lf_serverLine hword) hline with hline | ⟨last, hlast, rfl⟩
      · exact h line hline hfound
      · exact hold last hlast (serverIn_append hword hfound)
    · rw [wordEcho, if_neg hword] at hline
      rcases mem_linesOf_append (List.not_mem_nil (a := LF)) hline with hline | ⟨last, hlast, rfl⟩
      · exact h line hline hfound
      · rw [List.append_nil] at hfound
        exact hold last hlast hfound

/-! ## When nothing goes wrong -/

theorem parseDns_eq_nil {str : Bytes} :
    parseDns str = [] ↔ (withoutBlanks str).length ≤ 4 ∧ ch ',' ∉ withoutBlanks str := by
  have hsplit : ∀ s : Bytes, ((s.splitOn (ch ',')).dropLast).dedup = [] ↔ ch ',' ∉ s := by
    intro s
    rw [List.dedup_eq_nil]
    constructor
    · intro hnil hmem
      obtain ⟨before, after, rfl⟩ := List.append_of_mem hmem
      rw [List.splitOn_append_cons_self, List.dropLast_append_of_ne_nil (List.splitOn_ne_nil _ _)] at hnil
      exact List.splitOn_ne_nil _ _ (List.append_eq_nil_iff.mp hnil).1
    · intro hmem
      rw [List.splitOn_eq_singleton hmem]
      rfl
  rw [parseDns]
  rw [show (str.filter fun c => ¬ (c = 32 ∨ c = 9 ∨ c = 10 ∨ c = 13)) = withoutBlanks str from rfl]
  by_cases hlong : 4 < (withoutBlanks str).length
  · -- the comma that is added ends an entry
    rw [if_pos hlong, hsplit]
    simp [hlong]
  · rw [if_neg hlong, hsplit]
    simp [Nat.le_of_not_lt hlong]

theorem dnsarr_eq_nil (env : Env) {map : Config} {content : Option Bytes} : dnsarr env map content = [] ↔
    (∃ line ∈ linesOf (content.getD []), serverIn line = some (ascii "a#ip")) ∨
    parseDns (setting map "a#dns") = [] := by
  rw [dnsarr, ← mem_currentServers]
  by_cases hip : ascii "a#ip" ∈ currentServers content
  · simp [hip]
  · rw [if_neg hip]
    have hperm := env.pairs_perm (parseDns (setting map "a#dns"))
    constructor
    · intro hnil
      rw [hnil] at hperm
      exact .inr hperm.symm.eq_nil
    · rintro (hmem | hnil)
      · exact absurd hmem hip
      · rw [hnil] at hperm ⊢
        exact hperm.eq_nil

/-- If set_static adds a name server, it adds it again the next time. -/
theorem dnsarr_settled {env : Env} {map : Config} {content : Option Bytes}
    (h : dnsarr env map (settled env wordEcho map content) = []) : dnsarr env map content = [] := by
  by_cases hnone : dnsarr env map content = []
  · exact hnone
  rw [settled, if_neg hnone] at h
  rcases (dnsarr_eq_nil env).mp h with ⟨line, hline, hip⟩ | hparse
  · by_contra hne
    have hold : ∀ line ∈ linesOf (content.getD []), serverIn line ≠ some (ascii "a#ip") := by
      intro l hl hl2
      exact hne ((dnsarr_eq_nil env).mpr (.inl ⟨l, hl, hl2⟩))
    exact not_listed_append _ hold line hline hip
  · exact (dnsarr_eq_nil env).mpr (.inr hparse)

theorem wordEcho_ne_nil (ip : Bytes) : wordEcho ip ≠ [] := by
  unfold wordEcho
  split
  · exact List.append_ne_nil_of_right_ne_nil _ (List.cons_ne_nil _ _)
  · exact List.cons_ne_nil _ _

theorem Settles.dnsarr_nil {env : Env} {map : Config} {content : Option Bytes}
    (h : Settles env wordEcho map content) : dnsarr env map content = [] := by
  apply dnsarr_settled
  have hagain := h.again
  rw [appended, List.flatMap_eq_nil_iff] at hagain
  apply List.eq_nil_iff_forall_not_mem.mpr
  intro ip hip
  exact wordEcho_ne_nil ip (hagain ip hip)

/-- Whatever the shell does with words of other characters, set_static does what it is for
if and only if every name server is listed and there is nothing it adds: the file lists
`a#ip`, or the string has no comma and is too short to be an address. -/
theorem setStatic_settles_iff (env : Env) (map : Config) (content : Option Bytes) :
    (∀ echo, Echoes echo → Settles env echo map content) ↔
    (∀ ip ∈ servers (setting map "a#dns"), Listed content ip) ∧
    ((∃ line ∈ linesOf (content.getD []), serverIn line = some (ascii "a#ip")) ∨
      (withoutBlanks (setting map "a#dns")).length ≤ 4 ∧ ch ',' ∉ withoutBlanks (setting map "a#dns")) := by
  rw [← parseDns_eq_nil, ← dnsarr_eq_nil env]
  constructor
  · intro h
    have hsettles := h wordEcho echoes_wordEcho
    have hnone := hsettles.dnsarr_nil
    refine ⟨?_, hnone⟩
    intro ip hip
    have hall := hsettles.all ip hip
    rwa [settled, if_pos hnone] at hall
  · rintro ⟨hlisted, hnone⟩ echo -
    have hsame : settled env echo map content = content := if_pos hnone
    have hnothing : appended env echo map content = [] := by rw [appended, hnone, List.flatMap_nil]
    refine ⟨⟨[], List.nodup_nil, ?_, hnothing⟩, ?_, ?_⟩
    · intro ip
      constructor
      · intro hmem
        cases hmem
      · rintro ⟨hip, hnot⟩
        exact absurd (hlisted ip hip) hnot
    · rw [hsame]
      exact hlisted
    · rw [hsame, hnothing]

/-- The only name server, `8.8.8.8`, is listed and is added again. -/
theorem listed_server_again (echo : Bytes → Bytes) (h : Echoes echo) :
    ¬ Settles (Env.listed none) echo (AList.insert (ascii "a#dns") (ascii "8.8.8.8") ∅)
      (some (ascii "nameserver 8.8.8.8\n")) := by
  intro hsettles
  have hdns : dnsarr (Env.listed none) (AList.insert (ascii "a#dns") (ascii "8.8.8.8") ∅)
      (some (ascii "nameserver 8.8.8.8\n")) = [ascii "8.8.8.8"] := by decide +kernel
  have hservers : servers (setting (AList.insert (ascii "a#dns") (ascii "8.8.8.8") ∅) "a#dns") =
      [ascii "8.8.8.8"] := by decide +kernel
  have hlines : linesOf (ascii "nameserver 8.8.8.8\n") = [serverLine (ascii "8.8.8.8")] := by decide +kernel
  obtain ⟨ips, -, hmem, happended⟩ := hsettles.exact
  have hips : ips = [] := by
    apply List.eq_nil_iff_forall_not_mem.mpr
    intro ip hip
    obtain ⟨hin, hnot⟩ := (hmem ip).mp hip
    rw [hservers, List.mem_singleton] at hin
    apply hnot
    refine ⟨serverLine ip, ?_, [], rfl, (List.append_nil _).symm⟩
    rw [hin, Option.getD_some, hlines]
    exact List.mem_singleton_self _
  rw [appended, hdns, List.flatMap_singleton, h _ (by decide +kernel), hips, List.flatMap_nil] at happended
  exact List.append_ne_nil_of_right_ne_nil _ (List.cons_ne_nil _ _) happended

theorem not_settles_listed : ¬ ∀ env echo map content, Echoes echo → Settles env echo map content :=
  fun h => listed_server_again wordEcho echoes_wordEcho (h _ _ _ _ echoes_wordEcho)

end ApApps.Network
