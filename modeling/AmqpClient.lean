import AmqpClient.Network
import AmqpClient.Scenario
import AmqpClient.Shutdown
import AmqpClient.World.Run
import AmqpClient.Proofs.ClientMoves
import AmqpClient.Proofs.Consumer.Moves
import AmqpClient.Proofs.Consumer.Custody
import AmqpClient.Proofs.FailedMessages
import AmqpClient.Proofs.Flush
import AmqpClient.Proofs.Notice
import AmqpClient.Proofs.Fates
import AmqpClient.Proofs.Recoveries
import AmqpClient.Proofs.Swaps
import AmqpClient.Proofs.Pairs
import AmqpClient.Proofs.Consumer.Budget
import AmqpClient.Proofs.Consumer.Permits
import AmqpClient.Proofs.Broker.Streams
import AmqpClient.Proofs.Subscriptions
import AmqpClient.Proofs.Engagement
import AmqpClient.Proofs.Supervisor.Dials
import AmqpClient.Proofs.Supervisor.Outlook
import AmqpClient.Proofs.Heading
import AmqpClient.Proofs.Lifecycles
import AmqpClient.Proofs.Consumer.Locking
import AmqpClient.Proofs.Consumer.Retirement
import AmqpClient.Proofs.Consumer.Spawns
import AmqpClient.Proofs.Installation
import AmqpClient.Proofs.Json.Numerals
import AmqpClient.Proofs.Json.Reading
import AmqpClient.Proofs.ServiceMessages
import AmqpClient.Proofs.Setup
import AmqpClient.Proofs.Settlements
import AmqpClient.Proofs.RetryChains
import AmqpClient.Proofs.RetrySchedules
import AmqpClient.Proofs.Backoff
import AmqpClient.Proofs.Redeclarations
import AmqpClient.Proofs.Publications
import AmqpClient.Proofs.PendingCopies
import AmqpClient.Proofs.Addresses
import AmqpClient.Proofs.ServicePosts
import AmqpClient.Proofs.Histories
import AmqpClient.Proofs.Deadlines
import AmqpClient.Proofs.StopFlags
