import CallGate.Proofs.Services.Steady

/-! A sink that refuses nothing. What it keeps is told by what is sent to it and taken from it: a service
call appends the text that it emits into this sink, and text for other sinks passes it by. -/

namespace CallGate

namespace Services

structure Capturing (i : Nat) (text : List UInt8) (s : Services) : Prop where
  present : i < s.sinks.size
  accepts : ∀ tried, (s.sinks.get i).refusal tried = none
  kept : (s.sinks.get i).kept.data.toList = text

def portion (i sink : Nat) (text : List UInt8) : List UInt8 := if sink = i then text else []

variable {i : Nat} {text : List UInt8} {s : Services}

theorem Capturing.congr (capturing : Capturing i text s) {after : Services}
    (same : after.sinks = s.sinks) : Capturing i text after := by
  obtain ⟨present, accepts, kept⟩ := capturing
  rw [← same] at present accepts kept
  exact ⟨present, accepts, kept⟩

theorem Capturing.write (capturing : Capturing i text s) (sink : Nat) (data : ByteArray) :
    Capturing i (text ++ portion i sink data.data.toList) (s.write sink data).2 := by
  have present : i < (s.write sink data).2.sinks.size :=
    Nat.lt_of_lt_of_le capturing.present (s.sinks.size_le_set _ _)
  by_cases here : sink = i
  · subst here
    have stored : (s.write sink data).2.sinks.get sink = ((s.sinks.get sink).write data).2 :=
      s.sinks.get_set_same _ _
    have written : ((s.sinks.get sink).write data).2
        = { s.sinks.get sink with
            tried := data :: (s.sinks.get sink).tried
            kept := (s.sinks.get sink).kept ++ data } := by
      simp only [Sink.write, capturing.accepts]
    refine ⟨present, ?_, ?_⟩
    · rw [stored, written]
      exact capturing.accepts
    · rw [stored, written, portion, if_pos rfl, ← capturing.kept]
      exact ByteArray.toList_data_append
  · have stored : (s.write sink data).2.sinks.get i = s.sinks.get i :=
      s.sinks.get_set_other (Ne.symm here) _
    refine ⟨present, ?_, ?_⟩
    · rw [stored]
      exact capturing.accepts
    · rw [stored, portion, if_neg here, List.append_nil]
      exact capturing.kept

theorem Capturing.take (capturing : Capturing i text s) (sink : Nat) :
    ∃ left, Capturing i left (s.take sink).2 ∧
      portion i sink (s.take sink).1.data.toList ++ left = text := by
  have present : i < (s.take sink).2.sinks.size :=
    Nat.lt_of_lt_of_le capturing.present (s.sinks.size_le_set _ _)
  by_cases here : sink = i
  · subst here
    have stored : (s.take sink).2.sinks.get sink = (s.sinks.get sink).take.2 :=
      s.sinks.get_set_same _ _
    refine ⟨[], ⟨present, ?_, ?_⟩, ?_⟩
    · rw [stored]
      exact capturing.accepts
    · rw [stored]
      rfl
    · rw [portion, if_pos rfl, List.append_nil]
      exact capturing.kept
  · have stored : (s.take sink).2.sinks.get i = s.sinks.get i :=
      s.sinks.get_set_other (Ne.symm here) _
    refine ⟨text, ⟨present, ?_, ?_⟩, ?_⟩
    · rw [stored]
      exact capturing.accepts
    · rw [stored]
      exact capturing.kept
    · rw [portion, if_neg here, List.nil_append]

theorem Capturing.addSink (capturing : Capturing i text s) (sink : Sink) :
    Capturing i text (s.addSink sink).2 := by
  have stored : (s.addSink sink).2.sinks.get i = s.sinks.get i :=
    s.sinks.get_push_of_lt capturing.present sink
  refine ⟨?_, ?_, ?_⟩
  · exact Nat.lt_of_lt_of_le capturing.present (by simp [Services.addSink, Table.push, Table.size])
  · rw [stored]
    exact capturing.accepts
  · rw [stored]
    exact capturing.kept

theorem Capturing.warn (capturing : Capturing i text s) (data : ByteArray) (size : UInt32) :
    Capturing i text (s.warn data size) := by
  unfold Services.warn
  split
  · exact capturing.congr rfl
  · exact capturing

theorem Capturing.offer (capturing : Capturing i text s) (sink : Nat) (data : ByteArray) :
    Capturing i (text ++ portion i sink data.data.toList) (s.offer sink data) := by
  have wrote := capturing.write sink data
  unfold Services.offer
  split
  · next done =>
    rwa [done] at wrote
  · next done =>
    rw [done] at wrote
    exact wrote.congr rfl

theorem Capturing.puts (capturing : Capturing i text s) (host : Host) (data : ByteArray)
    (size : UInt32) :
    Capturing i (text ++ portion i host.sink (data.data.toList.take size.toNat))
      (s.puts host data size) := by
  rw [puts_eq, ← emitted_toList]
  split
  · next nothing =>
    have empty : (emitted data size).data.toList = [] := List.eq_nil_of_length_eq_zero nothing
    rw [empty, portion, ite_self, List.append_nil]
    exact capturing.warn data size
  · exact (capturing.warn data size).offer _ _

end Services

end CallGate
