import IanOS.Userspace.Streams

/-!
# Filters and a slow reader

For each line they select, `grep`, `cut` and `tr` write a tag, the text and a line break to standard
output.  Tag and line break go through `write_fd`, which goes on until everything is written.  The
text is passed to a single `Write` whose result is not looked at, and a pipe takes no more than it
has room for.  So the output arrives exactly if at each such `Write` there is room for the text
(`output_arrives_iff`).
-/

namespace IanOS.Filters

open List

/-- A text for `write_fd`, or for a single `Write`. -/
inductive Output
  | all (text : List UInt8)
  | once (text : List UInt8)

def Output.text : Output → List UInt8
  | all text | once text => text

/-! ## The filters -/

/-- The loop over the input, which drops carriage returns and what does not fit into a line. -/
def lines (capacity : ℕ) (translate : UInt8 → UInt8) (line : List UInt8) :
    List UInt8 → List (List UInt8)
  | [] => if line = [] then [] else [line]
  | c :: input =>
    if c = 13 then lines capacity translate line input
    else if c = 10 then line :: lines capacity translate [] input
    else if line.length + 1 < capacity then lines capacity translate (line ++ [translate c]) input
    else lines capacity translate line input

/-- `contains` of `grep`. -/
def contains (line pattern : List UInt8) : Bool :=
  pattern ≠ [] ∧ ∃ i < line.length, (line.drop i).take pattern.length = pattern

/-- The field of `emit_selected_field`, from the number and the text of the one that the loop is in.
-/
def selectField (delimiter : UInt8) (wanted field : ℕ) (text : List UInt8) : List UInt8 → List UInt8
  | [] => if field = wanted then text else []
  | c :: line =>
    if c ≠ delimiter then selectField delimiter wanted field (text ++ [c]) line
    else if field = wanted then text
    else selectField delimiter wanted (field + 1) [] line

/-- `translate_char` of `tr`. -/
def translateChar (source target : List UInt8) (c : UInt8) : UInt8 :=
  match source.findIdx? (· = c) with
  | some i => target.getD (min i (target.length - 1)) c
  | none => c

/-- `emit_line` of `tr`, and the end of `emit_selected_field`. -/
def emitLine (tag : String) (line : List UInt8) : List Output :=
  .all (Path.ascii tag) :: (if line = [] then [] else [.once line]) ++ [.all [10]]

/-- A filter with its arguments. -/
inductive Filter
  | grep (pattern : List UInt8)
  | cut (delimiter : UInt8) (field : ℕ)
  | tr (source target : List UInt8)

/-- What a filter writes for an input; what it reports before and after is left out. -/
def Filter.outputs (input : List UInt8) : Filter → List Output
  | grep pattern => (lines 96 id [] input).flatMap fun line =>
    if contains line pattern then [.all (Path.ascii "[grep] "), .once line, .all [10]] else []
  | cut delimiter field => (lines 128 id [] input).flatMap fun line =>
    emitLine "[cut] " (selectField delimiter field 1 [] line)
  | tr source target => (lines 128 (translateChar source target) [] input).flatMap
    (emitLine "[tr] ")

/-! ## The pipe -/

/-- A pipe, what its reader has taken out of it, and what is still to be written. -/
structure Channel where
  pipe : Pipe
  bounded : pipe.Bounded
  received : List UInt8
  outputs : List Output

/-- The reader takes bytes out, or a `Write` returns.  One that had to wait writes no more than is
left of the page of its buffer, and one that could not wait writes nothing. -/
inductive Event
  | read (n : ℕ)
  | write (limit : ℕ)

namespace Channel

variable {c : Channel} {e : Event} {events : List Event}

def room (c : Channel) (limit : ℕ) : ℕ := min (kPipeCapacity - c.pipe.size) limit

def step (c : Channel) : Event → Channel
  | .read n =>
    let n := min n c.pipe.size
    { c with
      pipe := c.pipe.consume n
      bounded := c.bounded.consume n
      received := c.received ++ Bytes.load c.pipe.data c.pipe.readOffset n }
  | .write limit =>
    match c.outputs with
    | [] => c
    | output :: outputs =>
      { c with
        pipe := c.pipe.append (output.text.take (c.room limit))
        bounded := c.bounded.append (by
          have hfits := c.bounded.fits
          rw [length_take, room]
          omega)
        outputs := match output with
          | .once _ => outputs
          | .all text => if text.length ≤ c.room limit then outputs
              else .all (text.drop (c.room limit)) :: outputs }

/-- A `Write` of the machine to a pipe that is read puts into it what the step puts into the pipe of
the channel, and then serves those that wait for it. -/
lemma writeFile_eq {V : Type} [FileSystem V] {s : Machine V} {pid fd buffer j k : ℕ}
    {d : FileDescriptor} {output : Output} {outputs : List Output} (hj : s.findOwner pid = some j)
    (hd : lookupFd fd (s.fds j) = some d) (hkind : d.kind = .pipeWrite)
    (hreader : s.pipeHasLiveReader d.pipeId) (hk : s.findPipe d.pipeId = some k)
    (hpipe : s.pipe k = c.pipe) (hroom : c.pipe.size < kPipeCapacity)
    (houtputs : c.outputs = output :: outputs) (hbuffer : buffer ≠ 0) (hne : output.text ≠ [])
    (htext : Bytes.load s.userByte buffer output.text.length = output.text) :
    let size := output.text.length
    ∃ s' : Machine V, s'.pipe k = (c.step (.write size)).pipe ∧
      s.writeFile pid fd buffer size =
        (c.room size, (s'.wakePipeWaiters d.pipeId true false).2) := by
  intro size
  have hcopy : Bytes.load s.userByte buffer (c.room size) = output.text.take (c.room size) := by
    have hle : c.room size ≤ output.text.length := min_le_right _ _
    conv_rhs => rw [← htext, Bytes.load, ← map_take, take_range, min_eq_left hle]
    rfl
  refine ⟨s.accept k (output.text.take (c.room size)), ?_, ?_⟩
  · show (s.setPipe k fun p => p.append (output.text.take (c.room size))).pipe k = _
    rw [Machine.pipe_setPipe, if_pos rfl, hpipe, step, houtputs]
  · rw [Machine.writeFile, hj]
    dsimp only
    rw [if_neg (not_or.2 ⟨hbuffer, length_eq_zero_iff.not.2 hne⟩), hd]
    dsimp only
    rw [hkind]
    dsimp only
    rw [if_neg (not_not.2 hreader), hk]
    dsimp only
    rw [hpipe, if_neg (not_le.2 hroom), min_comm, ← hcopy]
    rfl

/-- What has been received, what the pipe holds and what is still to be written. -/
def total (c : Channel) : List UInt8 :=
  c.received ++ c.pipe.contents ++ c.outputs.flatMap Output.text

/-- A single `Write` finds room for its text. -/
def Fits (c : Channel) : Event → Prop
  | .read _ => True
  | .write limit =>
    match c.outputs with
    | .once text :: _ => text.length ≤ c.room limit
    | _ => True

/-- Nothing is lost in a step that fits, and something in any other. -/
lemma total_step (c : Channel) (e : Event) : (c.Fits e → (c.step e).total = c.total) ∧
    (¬c.Fits e → (c.step e).total.length < c.total.length) := by
  have hfront : c.pipe.readOffset ≤ c.pipe.size := c.bounded.front ▸ Nat.zero_le _
  cases e with
  | read n =>
    have hn : c.pipe.readOffset + min n c.pipe.size ≤ c.pipe.size := by
      rw [c.bounded.front]
      omega
    refine ⟨fun _ => ?_, fun h => absurd trivial h⟩
    simp only [step, total, Pipe.contents_consume hn, append_assoc]
  | write limit =>
    cases houtputs : c.outputs with
    | nil => simp [step, Fits, houtputs]
    | cons output outputs =>
      simp only [step, Fits, total, houtputs, Pipe.contents_append hfront, flatMap_cons]
      cases output with
      | all text =>
        refine ⟨fun _ => ?_, fun h => absurd trivial h⟩
        by_cases hall : text.length ≤ c.room limit
        · simp [Output.text, hall, take_of_length_le hall]
        · simp [Output.text, hall, ← append_assoc (take _ text)]
      | once text =>
        refine ⟨fun hall => ?_, fun hmore => ?_⟩
        · simp [Output.text, take_of_length_le hall]
        · simp only [Output.text, length_append, length_take]
          omega

lemma length_total_run (c : Channel) (events : List Event) :
    (events.foldl step c).total.length ≤ c.total.length := by
  refine foldlRecOn
    (motive := fun c' : Channel => c'.total.length ≤ c.total.length) events _ le_rfl ?_
  intro c' hle e _
  by_cases hfits : c'.Fits e
  · rwa [(c'.total_step e).1 hfits]
  · exact ((c'.total_step e).2 hfits).le.trans hle

lemma total_run_iff : (events.foldl step c).total = c.total ↔ Run.Allowed step Fits c events := by
  induction events generalizing c with
  | nil => simp [Run.Allowed]
  | cons e events ih =>
    rw [Run.Allowed, foldl_cons]
    by_cases hfits : c.Fits e
    · rw [← (c.total_step e).1 hfits, ih, and_iff_right hfits]
    refine iff_of_false (fun heq => ?_) fun h => hfits h.1
    have hle := length_total_run (c.step e) events
    have hlt := (c.total_step e).2 hfits
    rw [heq] at hle
    omega

/-- Whatever the pipe holds when the filter starts, and whenever the reader takes something out:
what has arrived and what is still to be written make up the output exactly if each text found room.
-/
theorem output_arrives_iff (c : Channel) (filter : Filter) (input : List UInt8)
    (events : List Event) :
    let start := { c with outputs := filter.outputs input }
    (events.foldl step start).total =
        c.received ++ c.pipe.contents ++ (filter.outputs input).flatMap Output.text ↔
      Run.Allowed step Fits start events :=
  total_run_iff

/-- The pipe has room for nine bytes.  The tag takes seven of them, and of the line two arrive. -/
theorem line_cut_short :
    let start : Channel :=
      ⟨{ size := 1015 }, ⟨rfl, by decide⟩, [], (Filter.grep [98]).outputs [97, 98, 99, 10]⟩
    ([Event.write 1024, .write 1024].foldl step start).total ≠ start.total := by
  intro start
  rw [Ne, total_run_iff]
  exact fun h => absurd (show 3 ≤ 2 from h.2.1) (by decide)

end Channel
end IanOS.Filters
