import HSQueue.Lib.Path
import HSQueue.Lib.Resequencer
import HSQueue.OrderedMerge.Basic
import HSQueue.OrderedMerge.Refinement
import HSQueue.OrderedMerge.Arrival
import HSQueue.OrderedMerge.Runs
import HSQueue.OrderedMerge.Gaps
import HSQueue.OrderedMerge.Arbitration
import HSQueue.Queue.Basic
import HSQueue.Queue.Producer
import HSQueue.Queue.Consumer
import HSQueue.Queue.System
import HSQueue.Lib.Locks
import HSQueue.Queue.Moves
import HSQueue.Queue.Locks
import HSQueue.Queue.Deadlock
import HSQueue.Queue.Positions
import HSQueue.Lib.Signal
import HSQueue.Queue.Waiting
import HSQueue.Queue.Blocks
import HSQueue.Lib.Log
import HSQueue.Queue.Fifo
import HSQueue.Queue.Discard
import HSQueue.Queue.Stopping
import HSQueue.Lib.Alone
import HSQueue.Queue.Alone
import HSQueue.Steps.Configuration
import HSQueue.Steps.Library
import HSQueue.Steps.Builder
import HSQueue.Lib.FreeList
import HSQueue.Pool.Basic
import HSQueue.Steps.Resources
import HSQueue.Steps.Wiring
import HSQueue.Steps.Starting
import HSQueue.Steps.Solo
import HSQueue.Steps.Operations
import HSQueue.Steps.Requests
import HSQueue.Payload
import HSQueue.Queue.Poll
import HSQueue.Queue.Solo
import HSQueue.Queue.Merge
import HSQueue.Lib.Calls
import HSQueue.Steps.Members
import HSQueue.Queue.NoEntries
import HSQueue.Steps.Running
import HSQueue.Steps.Calls
import HSQueue.Steps.Classes
import HSQueue.Steps.Destinations
import HSQueue.Steps.Divisors
import HSQueue.OrderedMerge.Heartbeats
import HSQueue.OrderedMerge.Timeouts
import HSQueue.OrderedMerge.Consumer
import HSQueue.Queue.Rotation
import HSQueue.Queue.Failing
import HSQueue.Lib.Does
import HSQueue.Steps.Streams
import HSQueue.Steps.RoundRobin
import HSQueue.Steps.Leaker
import HSQueue.Lib.Deck
import HSQueue.Steps.Shuffler
import HSQueue.Steps.PassThrough
import HSQueue.Lib.Ownership
import HSQueue.Pool.Allocation
import HSQueue.Pool.Connection
import HSQueue.Pool.World
import HSQueue.Steps.FanOut
import HSQueue.Steps.Stopper
import HSQueue.Lib.Ladder
import HSQueue.Queue.Ladders
import HSQueue.Bounds
import HSQueue.Lib.Regions
import HSQueue.Queue.Layout
import HSQueue.Lib.Settings
import HSQueue.Steps.InputQueues
import HSQueue.Lib.Stride
import HSQueue.Pool.Construction
import HSQueue.Lib.Safe
import HSQueue.Steps.Fitting
import HSQueue.Steps.Sizes
import HSQueue.Steps.Threads
import HSQueue.Steps.Buffers
import HSQueue.Lib.Search
import HSQueue.OrderedMerge.Search
import HSQueue.Lib.Padding
import HSQueue.Queue.Allocator
import HSQueue.Lib.Scopes
import HSQueue.SpinLock.Basic
import HSQueue.SpinLock.Nesting
import HSQueue.SpinLock.Refinement
import HSQueue.SpinLock.Balance
import HSQueue.Lib.Atomic
import HSQueue.Lib.Serving
import HSQueue.Lib.Channels
import HSQueue.Pool.Threads
import HSQueue.OrderedMerge.Window
import HSQueue.Steps.Merging
import HSQueue.Steps.Pipes
import HSQueue.Lib.Clients
import HSQueue.Queue.Channel
import HSQueue.Queue.Joined
import HSQueue.Steps.Joined
import HSQueue.Steps.Restoring
