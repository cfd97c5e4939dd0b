import Mathlib.Data.List.Basic
import Mathlib.Tactic.Common

/-!
# Subscriber options and publish results

The types of `events/policy.rs`: what a subscription does when its bounded queue is full, what it
was created with, and what a publish call reports.
-/

namespace Boardwalk

/-- A dotted path into a JSON value (`query::FieldPath`). -/
structure FieldPath where
  segments : List String
  deriving Repr, DecidableEq

abbrev SubscriptionId := ℕ

/-- `DEFAULT_OUTBOUND_CAPACITY`. -/
def DEFAULT_OUTBOUND_CAPACITY : ℕ := 64

/-- `DEFAULT_MAX_EVENT_SIZE_BYTES`. -/
def DEFAULT_MAX_EVENT_SIZE_BYTES : ℕ := 256 * 1024

/-- The overflow contract of a subscription's bounded queue. -/
inductive SlowConsumerPolicy where
  | disconnect
  | backpressure
  | dropNewest
  | coalesce (keyPath : FieldPath)
  deriving Repr, DecidableEq

/-- The policy is one of the three backed by a bounded channel. -/
def SlowConsumerPolicy.isMpsc : SlowConsumerPolicy → Bool
  | .coalesce _ => false
  | _ => true

structure SubscribeOpts where
  limit : Option ℕ := none
  outboundCapacity : Option ℕ := none
  slowConsumerPolicy : SlowConsumerPolicy := .disconnect
  deriving Repr, DecidableEq

/-- `SubscribeOpts::resolved_outbound_capacity`. -/
def SubscribeOpts.resolvedOutboundCapacity (opts : SubscribeOpts) : ℕ :=
  opts.outboundCapacity.getD DEFAULT_OUTBOUND_CAPACITY

structure PublishResult where
  delivered : ℕ := 0
  dropped : ℕ := 0
  coalesced : ℕ := 0
  disconnectedSlowConsumers : List SubscriptionId := []
  deriving Repr, DecidableEq

inductive PublishError where
  | tooLarge (limit : ℕ)
  deriving Repr, DecidableEq

end Boardwalk
