import HttpServer.Net.Connection

/-!
# Traces

The trace of a connection lists what happens on it: the chunks that are read
(no bytes at the end of the stream), the pieces the kernel takes, where a
response is complete, and how the connection ends. `Delivers t v` compares a
trace with one that leaves out the pieces: the bytes sent are exactly those of
the responses.
-/

namespace HttpServer

inductive Event where
  | received (c : Bytes)
  | sent (piece : Bytes)
  | responded (r : Bytes)
  | closed
  | killed
  | threw
  deriving DecidableEq

namespace Event

/-- The piece of a `send`. -/
@[simp] def piece : Event → Bytes
  | sent p => p
  | _ => []

@[simp] def response : Event → Option Bytes
  | responded r => some r
  | _ => none

@[simp] def isSent : Event → Bool
  | sent _ => true
  | _ => false

end Event

/-- All bytes the kernel took. -/
def bytesSent (t : List Event) : Bytes := t.flatMap Event.piece

/-- The responses that were written completely. -/
def responses (t : List Event) : List Bytes := t.filterMap Event.response

/-- The trace without the single pieces. -/
def visible (t : List Event) : List Event := t.filter fun e => !e.isSent

/-- The chunks read until the connection is closed, if it is. -/
def closePoint : List Event → Option (List Bytes)
  | [] => none
  | .closed :: _ => some []
  | .received c :: t => (closePoint t).map (c :: ·)
  | _ :: t => closePoint t

@[simp] theorem visible_nil : visible [] = [] := rfl
@[simp] theorem bytesSent_nil : bytesSent [] = [] := rfl
@[simp] theorem responses_nil : responses [] = [] := rfl

@[simp] theorem visible_cons (e : Event) (t : List Event) :
    visible (e :: t) = if e.isSent then visible t else e :: visible t := by
  cases e <;> rfl

@[simp] theorem bytesSent_cons (e : Event) (t : List Event) :
    bytesSent (e :: t) = e.piece ++ bytesSent t := rfl

@[simp] theorem responses_cons (e : Event) (t : List Event) :
    responses (e :: t) = e.response.toList ++ responses t := by
  cases e <;> rfl

@[simp] theorem visible_append (a b : List Event) : visible (a ++ b) = visible a ++ visible b := by
  simp [visible]

@[simp] theorem bytesSent_append (a b : List Event) : bytesSent (a ++ b) = bytesSent a ++ bytesSent b := by
  simp [bytesSent]

@[simp] theorem responses_append (a b : List Event) : responses (a ++ b) = responses a ++ responses b := by
  simp [responses]

/-- Only a complete response adds to the responses. -/
theorem responses_quiet (t : List Event) {e : Event} (quiet : e.response = none) :
    responses (t ++ [e]) = responses t := by
  rw [responses_append, responses_cons, quiet]
  exact List.append_nil _

/-- The trace `t` shows the events `v`, and what it sends are the responses of `v`. -/
structure Delivers (t v : List Event) : Prop where
  visible : visible t = v
  bytes : bytesSent t = (responses v).flatten

/-- Nothing is shown where nothing happens. -/
theorem Delivers.nil : Delivers [] [] := ⟨rfl, rfl⟩

/-- What is delivered in two parts is delivered in one. -/
theorem Delivers.append {t v t' v' : List Event} (h : Delivers t v) (h' : Delivers t' v') :
    Delivers (t ++ t') (v ++ v') where
  visible := by
    rw [← h.visible, ← h'.visible]
    simp [HttpServer.visible]
  bytes := by
    have bytes := h.bytes
    have bytes' := h'.bytes
    simp only [bytesSent] at *
    rw [List.flatMap_append, bytes, bytes', responses, responses, responses, List.filterMap_append,
      List.flatten_append]

/-- An event other than those of writing shows itself. -/
theorem Delivers.cons {t v : List Event} {e : Event} (sent : e.isSent = false)
    (response : e.response = none) (h : Delivers t v) : Delivers (e :: t) (e :: v) := by
  have one : Delivers [e] [e] := by
    cases e with
    | sent p => cases sent
    | responded r => cases response
    | _ => exact ⟨rfl, rfl⟩
  exact one.append h

/-- The single pieces do not show. -/
@[simp] theorem visible_sent (ps : List Bytes) : visible (ps.map .sent) = [] := by
  induction ps with
  | nil => rfl
  | cons p ps ih => exact ih

/-- The pieces add up to the text that they are cut from. -/
@[simp] theorem bytesSent_sent (ps : List Bytes) : bytesSent (ps.map .sent) = ps.flatten := by
  induction ps with
  | nil => rfl
  | cons p ps ih => rw [List.map_cons, List.flatten_cons, ← ih]; rfl

/-- A response written in pieces. -/
theorem Delivers.response {ps : List Bytes} {r : Bytes} (h : ps.flatten = r) :
    Delivers (ps.map .sent ++ [.responded r]) [.responded r] where
  visible := by
    have := visible_sent ps
    simp only [HttpServer.visible] at this ⊢
    rw [List.filter_append, this]
    rfl
  bytes := by
    have := bytesSent_sent ps
    simp only [bytesSent] at this ⊢
    rw [List.flatMap_append, this, h]
    simp [Event.piece, responses, Event.response]

/-- Leaving out the pieces leaves out no response. -/
theorem responses_visible (t : List Event) : responses (visible t) = responses t := by
  induction t with
  | nil => rfl
  | cons e t ih => cases e <;> simp [ih]

/-- Closing shows in both traces at the same place. -/
theorem closePoint_visible (t : List Event) : closePoint (visible t) = closePoint t := by
  induction t with
  | nil => rfl
  | cons e t ih =>
    cases e <;> simp_all [closePoint, HttpServer.visible, Event.isSent]

end HttpServer
