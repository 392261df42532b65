import ObjectMarkup.Session
import ObjectMarkup.Settings.Document
import ObjectMarkup.Tree.Evaluate
import ObjectMarkup.Proofs.Acceptance
import ObjectMarkup.Proofs.Recursion
import ObjectMarkup.Proofs.Fitting
import ObjectMarkup.Proofs.Order
import ObjectMarkup.Proofs.Failures
import ObjectMarkup.Proofs.Survey
import ObjectMarkup.Proofs.Namescopes
import ObjectMarkup.Proofs.Scoping
import ObjectMarkup.Proofs.Scopes
import ObjectMarkup.Proofs.Duplicates
import ObjectMarkup.Proofs.Outcomes
import ObjectMarkup.Proofs.Effects
import ObjectMarkup.Proofs.Aftermath
import ObjectMarkup.Proofs.Commitments
import ObjectMarkup.Proofs.Alike
import ObjectMarkup.Proofs.Calls
import ObjectMarkup.Proofs.Recordings
import ObjectMarkup.Proofs.Apart
import ObjectMarkup.Proofs.Likeness
import ObjectMarkup.Proofs.Parallel
import ObjectMarkup.Proofs.Replay
import ObjectMarkup.Proofs.Instances
import ObjectMarkup.Proofs.Templates
import ObjectMarkup.Proofs.Renaming
import ObjectMarkup.Proofs.Noted
import ObjectMarkup.Proofs.Signals
import ObjectMarkup.Proofs.FirstObject
import ObjectMarkup.Proofs.Turns
import ObjectMarkup.Proofs.Lifetimes
import ObjectMarkup.Proofs.Placeholders
import ObjectMarkup.Proofs.Overlooking
import ObjectMarkup.Proofs.Supplied
import ObjectMarkup.Proofs.Scheduling
import ObjectMarkup.Proofs.Queue
import ObjectMarkup.Proofs.Circles
import ObjectMarkup.Proofs.Dependencies
import ObjectMarkup.Proofs.Reordering
import ObjectMarkup.Proofs.Arrangement
import ObjectMarkup.Proofs.Reading
import ObjectMarkup.Proofs.Precedence
import ObjectMarkup.Proofs.Refusals
import ObjectMarkup.Proofs.Routes
import ObjectMarkup.Proofs.Attachments
import ObjectMarkup.Proofs.Grounds
import ObjectMarkup.Proofs.Visits
import ObjectMarkup.Proofs.Filling
import ObjectMarkup.Proofs.Endings
import ObjectMarkup.Proofs.Entering
import ObjectMarkup.Proofs.Gathering
import ObjectMarkup.Proofs.Contiguity
import ObjectMarkup.Proofs.Layout
import ObjectMarkup.Proofs.Ownership
import ObjectMarkup.Proofs.WellFormed
import ObjectMarkup.Proofs.Asides
import ObjectMarkup.Proofs.Transcript
import ObjectMarkup.Proofs.Numerals
import ObjectMarkup.Proofs.Literals
import ObjectMarkup.Proofs.Extensions
import ObjectMarkup.Proofs.Labels
import ObjectMarkup.Proofs.Overriding
import ObjectMarkup.Proofs.Directives
import ObjectMarkup.Proofs.Representation
import ObjectMarkup.Proofs.Nesting
