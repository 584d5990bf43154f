import HostLookup.Proofs.Config.Lines

/-!
A configuration is read alike however its text is delivered. The pieces that come in may be cut
anywhere, within a character or within the end of a line, and calls to try again may come between
them. Where the rest of the text cannot be had, the complete lines that came in count, and the line
that was begun does not.
-/
set_option autoImplicit false

namespace HostLookup.Config

open Text

/-- Octets are delivered in pieces, none of them empty, with calls to try again in between. -/
inductive Delivers : List Delivery → Octets → Prop where
  | nothing : Delivers [] []
  | again {failure : IoFailure} {ds : List Delivery} {os : Octets} :
      failure.kind = .interrupted → Delivers ds os → Delivers (.failed failure :: ds) os
  | piece {ds : List Delivery} {os rest : Octets} :
      os ≠ [] → Delivers ds rest → Delivers (.octets os :: ds) (os ++ rest)

/-- The octets up to the last line feed. -/
def wholeLines (os : Octets) : Octets := (os.reverse.dropWhile (· != lineFeed)).reverse

variable {os begun rest pending : Octets} {ls : List Octets}

theorem exists_ended (os : Octets) :
    ∃ ls begun, os = ended ls ++ begun ∧ (∀ l ∈ ls, Unended l) ∧ Unended begun := by
  induction os with
  | nil => exact ⟨[], [], rfl, nofun, nofun⟩
  | cons o os ih =>
    obtain ⟨ls, begun, rfl, hls, hbegun⟩ := ih
    cases ho : o == lineFeed with
    | true =>
      rw [eq_of_beq ho]
      exact ⟨[] :: ls, begun, rfl, List.forall_mem_cons.mpr ⟨nofun, hls⟩, hbegun⟩
    | false =>
      cases ls with
      | nil => exact ⟨[], o :: begun, rfl, nofun, List.forall_mem_cons.mpr ⟨ho, hbegun⟩⟩
      | cons l ls =>
        obtain ⟨hl, hls⟩ := List.forall_mem_cons.mp hls
        have hline : Unended (o :: l) := List.forall_mem_cons.mpr ⟨ho, hl⟩
        exact ⟨(o :: l) :: ls, begun, rfl, List.forall_mem_cons.mpr ⟨hline, hls⟩, hbegun⟩

theorem cutLines_ended_append (hls : ∀ l ∈ ls, Unended l) (rest : Octets) :
    cutLines (ended ls ++ rest) = (ls ++ (cutLines rest).1, (cutLines rest).2) := by
  have hrest := split_ne_nil (· == lineFeed) rest
  unfold cutLines
  dsimp only
  rw [split_ended_append hls, List.dropLast_append_of_ne_nil hrest, List.getLast?_append,
    List.getLast?_eq_some_getLast hrest, Option.some_or]

theorem cutLines_of_unended (h : Unended os) : cutLines os = ([], os) := by
  unfold cutLines
  rw [split_eq_singleton h]
  rfl

theorem cutLines_eq (hls : ∀ l ∈ ls, Unended l) (hbegun : Unended begun) :
    cutLines (ended ls ++ begun) = (ls, begun) := by
  rw [cutLines_ended_append hls, cutLines_of_unended hbegun, List.append_nil]

theorem unended_begun (os : Octets) : Unended (cutLines os).2 := by
  obtain ⟨ls, begun, rfl, hls, hbegun⟩ := exists_ended os
  rw [cutLines_eq hls hbegun]
  exact hbegun

/-- The lines that are complete stay so when more octets come in, and the line begun goes on. -/
theorem cutLines_append (os rest : Octets) :
    cutLines (os ++ rest) = ((cutLines os).1 ++ (cutLines ((cutLines os).2 ++ rest)).1,
      (cutLines ((cutLines os).2 ++ rest)).2) := by
  obtain ⟨ls, begun, rfl, hls, hbegun⟩ := exists_ended os
  rw [cutLines_eq hls hbegun, List.append_assoc, cutLines_ended_append hls]

theorem wholeLines_ended_append (hls : ∀ l ∈ ls, Unended l) (hbegun : Unended begun) :
    wholeLines (ended ls ++ begun) = ended ls := by
  have hfree : ∀ o ∈ begun.reverse, (o != lineFeed) = true := by
    intro o ho
    rw [bne, hbegun o (List.mem_reverse.mp ho)]
    rfl
  unfold wholeLines
  rw [List.reverse_append, List.dropWhile_append_of_pos hfree]
  rcases List.eq_nil_or_concat ls with rfl | ⟨init, l, rfl⟩
  · rfl
  · have hended : ended (init ++ [l]) = ended init ++ l ++ [lineFeed] := by simp [ended]
    rw [List.concat_eq_append, hended, List.reverse_append, List.reverse_singleton,
      List.singleton_append, List.dropWhile_cons_of_neg (by decide), List.reverse_cons,
      List.reverse_reverse]

theorem read_wholeLines (c : Config) (os : Octets) :
    c.read (wholeLines os) = c.readLines (cutLines os).1 := by
  obtain ⟨ls, begun, rfl, hls, hbegun⟩ := exists_ended os
  rw [wholeLines_ended_append hls hbegun, read_ended hls, cutLines_eq hls hbegun]

theorem read_eq_cutLines (c : Config) (os : Octets) :
    c.read os = (c.readLines (cutLines os).1).andThen fun d => d.readRest (cutLines os).2 := by
  cases os with
  | nil => rfl
  | cons o os => rfl

theorem readFrom_piece (h : os ≠ []) (c : Config) (pending : Octets) (ds : List Delivery) :
    c.readFrom pending (.octets os :: ds) = (c.readLines (cutLines (pending ++ os)).1).andThen
      fun d => d.readFrom (cutLines (pending ++ os)).2 ds := by
  cases os with
  | nil => contradiction
  | cons o os => rfl

/-- Octets that are delivered behind a line begun are read as if they came in at once. -/
theorem readFrom_append {ds : List Delivery} (h : Delivers ds os) (hpending : Unended pending)
    (c : Config) (more : List Delivery) :
    c.readFrom pending (ds ++ more) = (c.readLines (cutLines (pending ++ os)).1).andThen
      fun d => d.readFrom (cutLines (pending ++ os)).2 more := by
  -- The octets of the line begun are what reading carries from one piece to the next.
  induction h generalizing c pending with
  | nothing =>
    rw [List.append_nil, cutLines_of_unended hpending]
    rfl
  | again hkind _ ih =>
    rw [List.cons_append, readFrom, if_pos hkind]
    exact ih hpending c
  | @piece ds os rest hne _ ih =>
    have hbegun := unended_begun (pending ++ os)
    rw [List.cons_append, readFrom_piece hne, ← List.append_assoc,
      cutLines_append (pending ++ os) rest, readLines_append, Reading.andThen_andThen]
    exact congrArg _ (funext fun d => ih hbegun d)

/-- A text is read alike however it is delivered. If the rest of it cannot be had, its complete lines
are read alike, and unless they have a fault the failure to deliver is the only one. -/
theorem readFrom_of_delivers {ds : List Delivery} (h : Delivers ds os) (c : Config) :
    c.readFrom [] ds = c.read os ∧
      ∀ (failure : IoFailure) (more : List Delivery), failure.kind ≠ .interrupted →
        ((c.read (wholeLines os)).fault ≠ none →
          c.readFrom [] (ds ++ .failed failure :: more) = c.read (wholeLines os)) ∧
        ((c.read (wholeLines os)).fault = none →
          c.readFrom [] (ds ++ .failed failure :: more) =
            ⟨(c.read (wholeLines os)).config, some (.io failure)⟩) := by
  constructor
  · have hpending : Unended [] := nofun
    have hread := readFrom_append h hpending c []
    rw [List.append_nil, List.nil_append] at hread
    rw [hread, read_eq_cutLines]
    rfl
  · intro failure more hkind
    have hread : c.readFrom [] (ds ++ .failed failure :: more) =
        (c.read (wholeLines os)).andThen fun d => ⟨d, some (.io failure)⟩ := by
      have hpending : Unended [] := nofun
      rw [readFrom_append h hpending, List.nil_append, read_wholeLines]
      exact congrArg _ (funext fun d => if_neg hkind)
    rw [hread]
    constructor
    · intro hfault
      exact Reading.andThen_of_fault hfault _
    · intro hdone
      exact Reading.andThen_of_done hdone _

/-- Lines of which the last one is not of the format. -/
def unfinishedText : Octets := encode "# \u00e9\r\noptions rotate\r\nname".toList

/-- The text in pieces that are cut within a character and within the end of a line. -/
def unfinishedDeliveries : List Delivery :=
  [.octets (unfinishedText.take 3), .failed ⟨.interrupted, ""⟩,
    .octets ((unfinishedText.drop 3).take 2), .octets (unfinishedText.drop 5)]

theorem delivers_unfinished : Delivers unfinishedDeliveries unfinishedText :=
  .piece (by decide +kernel) (.again rfl (.piece (by decide +kernel) (.piece (by decide +kernel)
    .nothing)))

theorem readFrom_of_delivers_unfinished :
    Delivers unfinishedDeliveries unfinishedText ∧
      initial.readFrom [] unfinishedDeliveries = { initial with rotate := true }.broken ∧
      initial.readFrom [] (unfinishedDeliveries ++ [.failed ⟨.timedOut, "slow"⟩]) =
        ⟨{ initial with rotate := true }, some (.io ⟨.timedOut, "slow"⟩)⟩ := by
  have hread : initial.read unfinishedText = { initial with rotate := true }.broken := by
    decide +kernel
  have hlines : initial.read (wholeLines unfinishedText) = { initial with rotate := true }.done := by
    decide +kernel
  obtain ⟨hall, hfailed⟩ := readFrom_of_delivers delivers_unfinished initial
  obtain ⟨_, hdone⟩ := hfailed ⟨.timedOut, "slow"⟩ [] (by decide)
  refine ⟨delivers_unfinished, hall.trans hread, ?_⟩
  rw [hdone (congrArg Reading.fault hlines), hlines]
  rfl

end HostLookup.Config
