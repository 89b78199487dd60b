import RpictlMcp.RemoteTools
import Mathlib.Data.List.DropRight

/-!
# rpictl-mcp: the first lines of the clients

Each function that talks to the daemon writes one line first: `ping_daemon`,
`stop_daemon`, `SocketClient::call`, `run_power`, `run_console` and
`run_monitor`.  They put what they were given into the line as it is, and
`serve_client` reads the line up to its end, trims it, and takes it apart.

This module says exactly which of these lines come through: a line is understood
as it was meant unless something in it is blank where it may not be, is broken
by a line end, or has white space where the daemon cuts.
-/

namespace RpictlMcp

/-- What a function of a client asks the daemon for. -/
inductive ClientLine where
  | ping
  | shutdown
  | rpc (json : List Char)
  | power (action boardId : List Char)
  | console (boardId : List Char)
  | monitor (boardId : List Char)
deriving DecidableEq, Repr

/-- The line that the function writes. -/
def ClientLine.text : ClientLine → List Char
  | .ping => "PING\n".toList
  | .shutdown => "SHUTDOWN\n".toList
  | .rpc json => "RPC ".toList ++ json ++ ['\n']
  | .power action boardId =>
      "POWER ".toList ++ action ++ ' ' :: boardId ++ ['\n']
  | .console boardId => "CONSOLE ".toList ++ boardId ++ ['\n']
  | .monitor boardId => "MONITOR ".toList ++ boardId ++ ['\n']

/-- The first two words of a text. -/
def firstWords (rest : List Char) : List Char × List Char :=
  ((splitWhitespace rest)[0]?.getD [], (splitWhitespace rest)[1]?.getD [])

/-- What the daemon takes a line for. -/
def Handshake.understood : Handshake → ClientLine
  | .ping => .ping
  | .shutdown => .shutdown
  | .rpc json => .rpc json
  | .power rest => .power (firstWords rest).1 (firstWords rest).2
  | .console id => .console id
  | .monitor id => .monitor id

/-- A text without white space. -/
def Solid (s : List Char) : Prop :=
  ∀ c ∈ s, isWhitespace c = false

/-- A text of one line that ends in something visible. -/
def Closed (s : List Char) : Prop :=
  '\n' ∉ s ∧ s ≠ [] ∧ s.rdropWhile isWhitespace = s

/-- A text of one line that begins and ends in something visible. -/
def Framed (s : List Char) : Prop :=
  '\n' ∉ s ∧ s ≠ [] ∧ trim s = s

/-- The lines that come through. -/
def ClientLine.Clear : ClientLine → Prop
  | .ping => True
  | .shutdown => True
  | .rpc json => Closed json
  | .power action boardId => action ≠ [] ∧ Solid action ∧ Solid boardId
  | .console boardId => Framed boardId
  | .monitor boardId => Framed boardId

instance (s : List Char) : Decidable (Solid s) :=
  List.decidableBAll (fun c => isWhitespace c = false) s

instance (s : List Char) : Decidable (Closed s) :=
  inferInstanceAs (Decidable (_ ∧ _))

instance (s : List Char) : Decidable (Framed s) :=
  inferInstanceAs (Decidable (_ ∧ _))

instance (line : ClientLine) : Decidable line.Clear :=
  match line with
  | .ping => inferInstanceAs (Decidable True)
  | .shutdown => inferInstanceAs (Decidable True)
  | .rpc json => inferInstanceAs (Decidable (Closed json))
  | .power action boardId =>
      inferInstanceAs (Decidable (action ≠ [] ∧ Solid action ∧ Solid boardId))
  | .console boardId => inferInstanceAs (Decidable (Framed boardId))
  | .monitor boardId => inferInstanceAs (Decidable (Framed boardId))

section Words

variable {s rest : List Char}

theorem isWhitespace_space : isWhitespace ' ' = true := by decide

theorem isWhitespace_newline : isWhitespace '\n' = true := by decide

/-- The pieces between separators are free of them. -/
theorem forall_of_mem_splitOnP {α : Type} {p : α → Bool} {l part : List α}
    (h : part ∈ l.splitOnP p) : ∀ x ∈ part, p x = false := by
  induction l generalizing part with
  | nil =>
      obtain rfl : part = [] := by simpa using h
      simp
  | cons a l ih =>
      rw [List.splitOnP_cons_eq_if_modifyHead] at h
      split at h
      · rcases List.mem_cons.mp h with rfl | hmem
        · simp
        · exact ih hmem
      · rename_i ha
        cases hsplit : l.splitOnP p with
        | nil => simp [hsplit] at h
        | cons first others =>
            rw [hsplit, List.modifyHead_cons] at h
            rcases List.mem_cons.mp h with rfl | hmem
            · have hfirst : ∀ x ∈ first, p x = false := ih (by simp [hsplit])
              simpa [ha] using hfirst
            · exact ih (by simp [hsplit, hmem])

/-- A word is solid and not empty. -/
theorem word_of_mem {word : List Char} (h : word ∈ splitWhitespace s) :
    word ≠ [] ∧ Solid word := by
  rw [splitWhitespace, List.mem_filter] at h
  exact ⟨by simpa using h.2, forall_of_mem_splitOnP h.1⟩

theorem solid_getD_splitWhitespace (k : Nat) :
    Solid ((splitWhitespace s)[k]?.getD []) := by
  cases hword : (splitWhitespace s)[k]? with
  | none => simp [Solid]
  | some word => exact (word_of_mem (List.mem_of_getElem? hword)).2

theorem splitWhitespace_solid (h : Solid s) :
    splitWhitespace s = if s = [] then [] else [s] := by
  rw [splitWhitespace, List.splitOnP_eq_singleton h]
  cases s <;> simp

theorem splitWhitespace_cons (h : Solid s) (hs : s ≠ []) :
    splitWhitespace (s ++ ' ' :: rest) = s :: splitWhitespace rest := by
  rw [splitWhitespace, List.splitOnP_append_cons_of_forall_mem h ' '
    isWhitespace_space, List.filter_cons, if_pos (by simpa using hs)]
  rfl

end Words

section Lines

variable {keyword field s : List Char}

theorem trim_eq (s : List Char) :
    trim s = (s.dropWhile isWhitespace).rdropWhile isWhitespace := rfl

theorem rdropWhile_append {α : Type} (p : α → Bool) (l l' : List α) :
    (l ++ l').rdropWhile p =
      if l'.rdropWhile p = [] then l.rdropWhile p
      else l ++ l'.rdropWhile p := by
  rw [List.rdropWhile, List.reverse_append, List.dropWhile_append]
  simp only [List.isEmpty_iff, List.rdropWhile, List.reverse_eq_nil_iff]
  split
  · rfl
  · rw [List.reverse_append, List.reverse_reverse]

theorem solid_of_all (h : s.all (fun c => !isWhitespace c) = true) :
    Solid s := by
  intro c hc
  simpa using List.all_eq_true.mp h c hc

theorem Solid.rdropWhile (h : Solid s) : s.rdropWhile isWhitespace = s := by
  rw [List.rdropWhile_eq_self_iff]
  intro hne
  simp [h _ (List.getLast_mem hne)]

theorem Solid.newline (h : Solid s) : '\n' ∉ s := by
  intro hmem
  have := h _ hmem
  simp [isWhitespace_newline] at this

/-- What the daemon sees of a field: up to a line end, and cut at its end. -/
def cut (s : List Char) : List Char :=
  (s.takeWhile (· ≠ '\n')).rdropWhile isWhitespace

theorem cut_initial (s : List Char) : cut s <+: s :=
  (List.rdropWhile_prefix _ _).trans (List.takeWhile_prefix _)

theorem takeWhile_line (h : '\n' ∉ s) : s.takeWhile (· ≠ '\n') = s := by
  rw [List.takeWhile_eq_self_iff]
  intro c hc
  have hne : c ≠ '\n' := ne_of_mem_of_not_mem hc h
  simpa using hne

theorem cut_line (h : '\n' ∉ s) : cut s = s.rdropWhile isWhitespace := by
  rw [cut, takeWhile_line h]

theorem newline_not_mem_cut (s : List Char) : '\n' ∉ cut s := by
  intro hmem
  have := List.mem_takeWhile_imp ((List.rdropWhile_prefix _ _).subset hmem)
  simp at this

/-- A field that is closed is seen as it is. -/
theorem closed_iff : Closed s ↔ cut s = s ∧ s ≠ [] := by
  constructor
  · rintro ⟨hline, hne, hclosed⟩
    exact ⟨(cut_line hline).trans hclosed, hne⟩
  · rintro ⟨hcut, hne⟩
    have hline : '\n' ∉ s := hcut ▸ newline_not_mem_cut s
    exact ⟨hline, hne, (cut_line hline).symm.trans hcut⟩

theorem trim_sublist (s : List Char) : (trim s).Sublist s :=
  ((List.rdropWhile_prefix _ _).sublist).trans (List.dropWhile_sublist _)

/-- A text that is trimmed is cut. -/
theorem rdropWhile_of_trim (h : trim s = s) :
    s.rdropWhile isWhitespace = s := by
  have hdrop : s.dropWhile isWhitespace = s := by
    refine (List.dropWhile_sublist _).eq_of_length_le ?_
    calc s.length = (trim s).length := by rw [h]
      _ ≤ _ := (List.rdropWhile_prefix _ _).length_le
  rw [trim_eq, hdrop] at h
  exact h

/-- A field that is framed is seen as it is. -/
theorem framed_iff : Framed s ↔ cut s ≠ [] ∧ trim (cut s) = s := by
  constructor
  · rintro ⟨hline, hne, htrim⟩
    rw [cut_line hline, rdropWhile_of_trim htrim]
    exact ⟨hne, htrim⟩
  · rintro ⟨hcut, htrim⟩
    have hsame : cut s = s := by
      refine (cut_initial s).sublist.eq_of_length_le ?_
      calc s.length = (trim (cut s)).length := by rw [htrim]
        _ ≤ _ := (trim_sublist _).length_le
    rw [hsame] at hcut htrim
    exact ⟨hsame ▸ newline_not_mem_cut s, hcut, htrim⟩

theorem readLine_append (s stream : List Char) :
    readLine (s ++ '\n' :: stream) = s.takeWhile (· ≠ '\n') ++ ['\n'] := by
  induction s with
  | nil => rfl
  | cons c s ih =>
      rw [List.cons_append, readLine, List.takeWhile_cons]
      by_cases hc : c = '\n'
      · simp [hc]
      · simp [hc, ih]

/-- A line without white space. -/
theorem readLine_solid (h : Solid s) (stream : List Char) :
    readLine (s ++ ['\n'] ++ stream) = s ++ ['\n'] := by
  rw [List.append_assoc, List.singleton_append, readLine_append,
    takeWhile_line h.newline]

/-- The daemon trims a line that begins with a keyword. -/
theorem trim_keyword (hkeyword : Solid keyword) (hne : keyword ≠ [])
    (stream : List Char) :
    trim (readLine (keyword ++ ' ' :: field ++ '\n' :: stream)) =
      if cut field = [] then keyword else keyword ++ ' ' :: cut field := by
  have hline : (keyword ++ ' ' :: field).takeWhile (· ≠ '\n') =
      keyword ++ ' ' :: field.takeWhile (· ≠ '\n') := by
    rw [List.takeWhile_append_of_pos, List.takeWhile_cons_of_pos (by decide)]
    intro c hc
    have hne : c ≠ '\n' := ne_of_mem_of_not_mem hc hkeyword.newline
    simpa using hne
  have hfront : (keyword ++ ' ' :: field.takeWhile (· ≠ '\n') ++
      ['\n']).dropWhile isWhitespace =
        keyword ++ ' ' :: field.takeWhile (· ≠ '\n') ++ ['\n'] := by
    obtain ⟨c, word, rfl⟩ := List.exists_cons_of_ne_nil hne
    exact List.dropWhile_cons_of_neg (by simp [hkeyword c (by simp)])
  have hback : (' ' :: field.takeWhile (· ≠ '\n')).rdropWhile isWhitespace =
      if cut field = [] then [] else ' ' :: cut field := by
    rw [← List.singleton_append, rdropWhile_append]
    rfl
  rw [readLine_append, hline, trim_eq, hfront,
    List.rdropWhile_concat_pos _ _ _ isWhitespace_newline,
    rdropWhile_append, hback, hkeyword.rdropWhile]
  split <;> simp_all

end Lines

/-! ## What the daemon understands -/

/-- The keywords that a field follows. -/
inductive Keyword where
  | rpc
  | power
  | console
  | monitor

def Keyword.word : Keyword → String
  | .rpc => "RPC"
  | .power => "POWER"
  | .console => "CONSOLE"
  | .monitor => "MONITOR"

/-- The characters of a keyword. -/
abbrev Keyword.text (keyword : Keyword) : List Char := keyword.word.toList

/-- What a keyword asks for with a field. -/
def Keyword.asks : Keyword → List Char → Handshake
  | .rpc, field => .rpc field
  | .power, field => .power field
  | .console, field => .console (trim field)
  | .monitor, field => .monitor (trim field)

/-- The line of a keyword and a field. -/
def Keyword.line (keyword : Keyword) (field : List Char) : List Char :=
  keyword.text ++ ' ' :: field ++ ['\n']

section Understood

variable {keyword : Keyword} {field stream line rest : List Char}

theorem Keyword.solid (keyword : Keyword) : Solid keyword.text := by
  cases keyword <;> exact solid_of_all (by decide)

theorem Keyword.text_eq (keyword : Keyword) :
    keyword.text = match keyword with
      | .rpc => ['R', 'P', 'C']
      | .power => ['P', 'O', 'W', 'E', 'R']
      | .console => ['C', 'O', 'N', 'S', 'O', 'L', 'E']
      | .monitor => ['M', 'O', 'N', 'I', 'T', 'O', 'R'] := by
  cases keyword <;> decide

theorem Keyword.text_ne_nil (keyword : Keyword) : keyword.text ≠ [] := by
  cases keyword <;> decide

theorem parseHandshake_field
    (h : trim line = keyword.text ++ ' ' :: rest) :
    parseHandshake line = keyword.asks rest := by
  unfold parseHandshake
  rw [h, Keyword.text_eq]
  cases keyword <;> simp [Keyword.asks, stripPrefix]

/-- A keyword alone is taken for the name of a board. -/
theorem parseHandshake_bare (h : trim line = keyword.text) :
    parseHandshake line = .monitor keyword.text := by
  unfold parseHandshake
  rw [h, Keyword.text_eq]
  cases keyword <;> simp [stripPrefix]

/-- What the daemon makes of a keyword and a field. -/
theorem parseHandshake_line (keyword : Keyword) (field stream : List Char) :
    parseHandshake (readLine (keyword.line field ++ stream)) =
      if cut field = [] then .monitor keyword.text
      else keyword.asks (cut field) := by
  have htrim : trim (readLine
      (keyword.text ++ ' ' :: field ++ '\n' :: stream)) = _ :=
    trim_keyword keyword.solid keyword.text_ne_nil stream
  have htext : keyword.line field ++ stream =
      keyword.text ++ ' ' :: field ++ '\n' :: stream := by
    simp [Keyword.line]
  rw [htext]
  split <;> rename_i hblank
  · rw [if_pos hblank] at htrim
    exact parseHandshake_bare htrim
  · rw [if_neg hblank] at htrim
    exact parseHandshake_field htrim

end Understood

section Power

variable {action boardId s : List Char}

/-- A text without words is blank. -/
theorem blank_of_splitWhitespace (h : splitWhitespace s = []) :
    ∀ c ∈ s, isWhitespace c = true := by
  induction s with
  | nil => simp
  | cons c s ih =>
      rw [splitWhitespace, List.splitOnP_cons_eq_if_modifyHead] at h
      split at h
      · rename_i hc
        rw [List.filter_cons, if_neg (by simp)] at h
        simpa [hc] using ih h
      · cases hsplit : s.splitOnP isWhitespace with
        | nil => exact absurd hsplit (List.splitOnP_ne_nil _ _)
        | cons first others =>
            rw [hsplit, List.modifyHead_cons, List.filter_cons,
              if_pos (by simp)] at h
            cases h

theorem firstWords_cut (h : cut s ≠ []) : (firstWords (cut s)).1 ≠ [] := by
  intro hnone
  have hwords : splitWhitespace (cut s) = [] := by
    cases hsplit : splitWhitespace (cut s) with
    | nil => rfl
    | cons word words =>
        have hword : word ≠ [] ∧ Solid word :=
          word_of_mem (s := cut s) (by simp [hsplit])
        simp only [firstWords, hsplit] at hnone
        exact absurd hnone hword.1
  have hlast : cut s = (cut s).rdropWhile isWhitespace :=
    (List.rdropWhile_idempotent _ _).symm
  rw [List.rdropWhile_eq_nil_iff.mpr (blank_of_splitWhitespace hwords)]
    at hlast
  exact h hlast

/-- The two words of a `POWER` line are seen as they were given. -/
theorem firstWords_line_iff :
    cut (action ++ ' ' :: boardId) ≠ [] ∧
        firstWords (cut (action ++ ' ' :: boardId)) = (action, boardId) ↔
      action ≠ [] ∧ Solid action ∧ Solid boardId := by
  constructor
  · rintro ⟨hcut, hwords⟩
    have hfirst := firstWords_cut hcut
    have haction : Solid (firstWords (cut (action ++ ' ' :: boardId))).1 :=
      solid_getD_splitWhitespace 0
    have hboardId : Solid (firstWords (cut (action ++ ' ' :: boardId))).2 :=
      solid_getD_splitWhitespace 1
    rw [hwords] at hfirst haction hboardId
    exact ⟨hfirst, haction, hboardId⟩
  · rintro ⟨hne, haction, hboardId⟩
    have hline : '\n' ∉ action ++ ' ' :: boardId := by
      simp [haction.newline, hboardId.newline]
    have hspace : [' '].rdropWhile isWhitespace = [] := by decide
    rw [cut_line hline, rdropWhile_append, ← List.singleton_append,
      rdropWhile_append, hboardId.rdropWhile, hspace]
    by_cases hnone : boardId = []
    · subst hnone
      simp only [if_true, haction.rdropWhile]
      refine ⟨hne, ?_⟩
      simp [firstWords, splitWhitespace_solid haction, hne]
    · rw [if_neg hnone, if_neg (by simp)]
      refine ⟨by simp, ?_⟩
      simp [firstWords, splitWhitespace_cons haction hne,
        splitWhitespace_solid hboardId, hnone]

end Power

section Lines

/-- What the daemon understands of a line, and of what follows it. -/
abbrev understood (line : ClientLine) (stream : List Char) : ClientLine :=
  (parseHandshake (readLine (line.text ++ stream))).understood

theorem understood_ping (stream : List Char) :
    understood .ping stream = .ping := by
  have htext : ClientLine.ping.text = "PING".toList ++ ['\n'] := by decide
  have hping : parseHandshake ("PING".toList ++ ['\n']) = .ping := by decide
  rw [understood, htext, readLine_solid (solid_of_all (by decide)), hping,
    Handshake.understood]

theorem understood_shutdown (stream : List Char) :
    understood .shutdown stream = .shutdown := by
  have htext : ClientLine.shutdown.text = "SHUTDOWN".toList ++ ['\n'] := by
    decide
  have hshutdown : parseHandshake ("SHUTDOWN".toList ++ ['\n']) =
      .shutdown := by
    decide
  rw [understood, htext, readLine_solid (solid_of_all (by decide)), hshutdown,
    Handshake.understood]

/-- What the daemon understands of a keyword and a field. -/
theorem understood_line {line : ClientLine} (keyword : Keyword)
    {field : List Char} (htext : line.text = keyword.line field)
    (stream : List Char) :
    understood line stream = if cut field = [] then .monitor keyword.text
      else (keyword.asks (cut field)).understood := by
  rw [understood, htext, parseHandshake_line]
  split <;> rfl

theorem understood_rpc_iff (json stream : List Char) :
    understood (.rpc json) stream = .rpc json ↔ Closed json := by
  have htext : (ClientLine.rpc json).text = Keyword.rpc.line json := rfl
  rw [understood_line .rpc htext, closed_iff]
  split <;> rename_i hcut
  · simpa using fun h => h ▸ hcut
  · have hne : cut json = json → json ≠ [] := fun h => h ▸ hcut
    simpa [Handshake.understood, Keyword.asks] using hne

theorem understood_power_iff (action boardId stream : List Char) :
    understood (.power action boardId) stream = .power action boardId ↔
      action ≠ [] ∧ Solid action ∧ Solid boardId := by
  have htext : (ClientLine.power action boardId).text =
      Keyword.power.line (action ++ ' ' :: boardId) := by
    have hkeyword : "POWER ".toList = "POWER".toList ++ [' '] := by decide
    unfold ClientLine.text Keyword.line Keyword.text Keyword.word
    rw [hkeyword]
    generalize "POWER".toList = keyword
    simp
  rw [understood_line .power htext, ← firstWords_line_iff]
  split <;> rename_i hcut
  · simp [hcut]
  · simp [hcut, Handshake.understood, Keyword.asks, Prod.ext_iff]

theorem understood_console_iff (boardId stream : List Char) :
    understood (.console boardId) stream = .console boardId ↔
      Framed boardId := by
  have htext : (ClientLine.console boardId).text =
      Keyword.console.line boardId := rfl
  rw [understood_line .console htext, framed_iff]
  split <;> rename_i hcut
  · simp [hcut]
  · simp [hcut, Handshake.understood, Keyword.asks]

theorem understood_monitor_iff (boardId stream : List Char) :
    understood (.monitor boardId) stream = .monitor boardId ↔
      Framed boardId := by
  have htext : (ClientLine.monitor boardId).text =
      Keyword.monitor.line boardId := rfl
  rw [understood_line .monitor htext, framed_iff]
  split <;> rename_i hcut
  · have hself : cut Keyword.monitor.text ≠ [] := by decide
    have hne : Keyword.monitor.text ≠ boardId := by
      rintro rfl
      exact hself hcut
    simp [hcut, hne]
  · simp [hcut, Handshake.understood, Keyword.asks]

/--
The daemon understands a line as it was meant exactly if the line is clear: the
text of a remote call and the name of a board are on one line and not empty, the
text does not end in white space, and the name neither begins nor ends in it; a
`POWER` line needs an action, and no white space in it or in the name.
-/
theorem understood_iff (line : ClientLine) (stream : List Char) :
    understood line stream = line ↔ line.Clear := by
  cases line with
  | ping => exact iff_of_true (understood_ping stream) trivial
  | shutdown => exact iff_of_true (understood_shutdown stream) trivial
  | rpc json => exact understood_rpc_iff json stream
  | power action boardId => exact understood_power_iff action boardId stream
  | console boardId => exact understood_console_iff boardId stream
  | monitor boardId => exact understood_monitor_iff boardId stream

/-- A board whose name has a space in it has a console, but no `POWER` line. -/
example : (ClientLine.console "my board".toList).Clear ∧
    ¬(ClientLine.power "on".toList "my board".toList).Clear := by
  decide

end Lines

end RpictlMcp
